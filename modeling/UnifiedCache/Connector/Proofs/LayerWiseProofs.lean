import UnifiedCache.Connector.LayerWise

/-!
# What the layer-wise connector loads

In every step, whatever calls of the store fail, a request is loaded layer by layer, each layer in
time, or its blocks are reported as invalid (`load_all_or_invalid`).

The ledger of the load tasks (`LoadTrace`) is kept by every action on its own; the loops over the
requests and over the layers carry it along with what is loaded so far.
-/

open Lib

namespace UnifiedCache.Connector

variable {η : Type}

/-! ## The layout of the caches -/

theorem foldl_modify_getElem? {α β : Type*} (f : α → Nat) (g : α → List β) (l : List α)
    (rows : List (List β)) (r : Nat) :
    (l.foldl (fun rows x => rows.modify (f x) (· ++ g x)) rows)[r]? =
      rows[r]?.map fun row => row ++ (l.filter fun x => f x = r).flatMap g := by
  induction l generalizing rows with
  | nil => simp
  | cons x l ih =>
    rw [List.foldl_cons, ih, List.getElem?_modify]
    by_cases hx : f x = r
    · subst hx
      cases rows[f x]? <;> simp
    · cases rows[r]? <;> simp [hx]

theorem foldl_addLayer_basePtrs (first : Nat) (l : List KvLayer) (layout : KVCacheLayout) :
    (l.foldl (KVCacheLayout.addLayer first) layout).basePtrs =
      l.foldl (fun rows kv => rows.modify (kv.layerId - first) (· ++ kv.tensors.map KvTensor.ptr))
        layout.basePtrs := by
  induction l generalizing layout with
  | nil => rfl
  | cons kv l ih => rw [List.foldl_cons, ih, List.foldl_cons, KVCacheLayout.addLayer]

theorem foldl_addLayer_tensorSizeLists (first : Nat) (l : List KvLayer) (layout : KVCacheLayout) :
    (l.foldl (KVCacheLayout.addLayer first) layout).tensorSizeLists =
      l.foldl (fun rows kv => rows.modify (kv.layerId - first) (· ++ kv.tensors.map KvTensor.stride))
        layout.tensorSizeLists := by
  induction l generalizing layout with
  | nil => rfl
  | cons kv l ih => rw [List.foldl_cons, ih, List.foldl_cons, KVCacheLayout.addLayer]

theorem blockAddrs_map (tensors : List KvTensor) (v : VllmBlock) :
    blockAddrs (tensors.map KvTensor.stride) (tensors.map KvTensor.ptr) v =
      tensors.map fun t => t.stride * UInt64.ofNat v + t.ptr := by
  induction tensors with
  | nil => rfl
  | cons t tensors ih => simp [blockAddrs]

variable {first : Nat} {kv : KvLayer}

namespace WorkerConfig

variable {cfg : WorkerConfig η}

theorem Consecutive.layerIds_eq
    (h : cfg.kvCaches.map KvLayer.layerId = List.range' first cfg.kvCaches.length) :
    cfg.layerIds = List.range' first cfg.kvCaches.length := by
  have hnodup : (List.range' first cfg.kvCaches.length).Nodup := List.nodup_range'
  rw [layerIds, h, hnodup.dedup]
  exact List.Pairwise.insertionSort_eq ((List.pairwise_lt_range').imp Nat.le_of_lt)

theorem Consecutive.firstLayerId_eq
    (h : cfg.kvCaches.map KvLayer.layerId = List.range' first cfg.kvCaches.length) :
    cfg.firstLayerId = first := by
  have hpos : 0 < cfg.kvCaches.length := List.length_pos_of_ne_nil cfg.kvCaches_ne
  rw [firstLayerId, layerIds_eq h, List.head?_range']
  simp [Nat.pos_iff_ne_zero.mp hpos]

theorem Consecutive.layerId_of_append
    (h : cfg.kvCaches.map KvLayer.layerId = List.range' first cfg.kvCaches.length)
    {ran kvs : List KvLayer} (hran : ran ++ kv :: kvs = cfg.kvCaches) :
    kv.layerId = first + ran.length := by
  have hlt : ran.length < cfg.kvCaches.length := by
    rw [← hran, List.length_append, List.length_cons]
    omega
  have hget : (cfg.kvCaches.map KvLayer.layerId)[ran.length]? = some kv.layerId := by
    rw [← hran]
    simp
  rw [h, List.getElem?_range' hlt] at hget
  simpa using hget.symm

theorem Consecutive.extractBlockAddrs_getD
    (h : cfg.kvCaches.map KvLayer.layerId = List.range' first cfg.kvCaches.length) {r : Nat}
    (hr : r < cfg.kvCaches.length) (blocks : List VllmBlock) :
    (cfg.kvCacheLayout.extractBlockAddrs blocks).getD r [] = cfg.layerPtrs (first + r) blocks := by
  have hhead : (cfg.kvCaches.head?.map KvLayer.layerId).getD 0 = first := by
    have hpos : 0 < cfg.kvCaches.length := Nat.zero_lt_of_lt hr
    rw [← List.head?_map, h, List.head?_range']
    simp [Nat.pos_iff_ne_zero.mp hpos]
  have hrows : (cfg.kvCaches.map KvLayer.layerId).dedup.length = cfg.kvCaches.length := by
    have hnodup : (List.range' first cfg.kvCaches.length).Nodup := List.nodup_range'
    rw [h, hnodup.dedup, List.length_range']
  have hfilter : (cfg.kvCaches.filter fun kv => kv.layerId - first = r) =
      cfg.kvCaches.filter fun kv => kv.layerId = first + r := by
    refine List.filter_congr fun kv hkv => ?_
    have hmem : kv.layerId ∈ List.range' first cfg.kvCaches.length := by
      rw [← h]
      exact List.mem_map_of_mem hkv
    rw [List.mem_range'_1] at hmem
    exact decide_eq_decide.mpr (by omega)
  have hbase : cfg.kvCacheLayout.basePtrs[r]? = some ((cfg.kvCaches.filter fun kv =>
      kv.layerId = first + r).flatMap fun kv => kv.tensors.map KvTensor.ptr) := by
    rw [kvCacheLayout, buildLayout, hhead, hrows, foldl_addLayer_basePtrs, foldl_modify_getElem?,
      hfilter]
    simp [hr]
  have hsize : cfg.kvCacheLayout.tensorSizeLists[r]? = some ((cfg.kvCaches.filter fun kv =>
      kv.layerId = first + r).flatMap fun kv => kv.tensors.map KvTensor.stride) := by
    rw [kvCacheLayout, buildLayout, hhead, hrows, foldl_addLayer_tensorSizeLists,
      foldl_modify_getElem?, hfilter]
    simp [hr]
  rw [List.getD_eq_getElem?_getD, KVCacheLayout.extractBlockAddrs, List.getElem?_zipWith, hbase, hsize]
  simp only [Option.getD_some, layerPtrs, ← List.map_flatMap]
  exact List.map_congr_left fun v _ => blockAddrs_map _ v

end WorkerConfig

/-! ## The ledger of the load tasks -/

/-- A task has the number of the call that has returned it. -/
def Numbered (log : List (Action η)) : Prop := ∀ a ∈ log, ∀ t, a.submits t → log[t]? = some a

theorem Numbered.lt {log : List (Action η)} (h : Numbered log) {a : Action η} (ha : a ∈ log) {t : Task}
    (ht : a.submits t) : t < log.length := (List.getElem?_eq_some_iff.mp (h a ha t ht)).1

theorem Numbered.unique {log : List (Action η)} (h : Numbered log) {a b : Action η} (ha : a ∈ log)
    (hb : b ∈ log) {t : Task} (hat : a.submits t) (hbt : b.submits t) : a = b :=
  Option.some.inj ((h a ha t hat).symm.trans (h b hb t hbt))

theorem Numbered.append {log : List (Action η)} (h : Numbered log) {b : Action η}
    (hb : ∀ t, b.submits t → t = log.length) : Numbered (log ++ [b]) := by
  intro a ha t ht
  rcases List.mem_append.mp ha with ha | ha
  · rw [List.getElem?_append_left (h.lt ha ht)]
    exact h a ha t ht
  · obtain rfl := List.mem_singleton.mp ha
    rw [hb t ht, List.getElem?_append_right (Nat.le_refl _)]
    simp

/-- The load tasks in a trace: `failure` are the requests that have failed, and `pending` are the tasks
that have not been waited for. -/
structure LoadTrace (log : List (Action η)) (failure : List ReqId) (pending : List Task) :
    Prop where
  numbered : Numbered log
  waits_lt : ∀ a ∈ log, ∀ t, a.waitsFor t → t < log.length
  failed : ∀ a ∈ log, ∀ req, a.failsFor req → req ∈ failure
  none_after : ∀ req, log.Pairwise fun a b => a.failsFor req → b.loadsFor req = false
  nodup : pending.Nodup
  pending_lt : ∀ t ∈ pending, t < log.length
  once : ∀ a ∈ log, ∀ req t, a.loadsFor req → a.submits t →
    log.countP (Action.waitsFor t) = if t ∈ pending then 0 else 1

namespace LoadTrace

variable {log : List (Action η)} {failure failure' : List ReqId} {pending pending' : List Task}
  {b : Action η}

theorem nil : LoadTrace ([] : List (Action η)) [] [] where
  numbered := by simp [Numbered]
  waits_lt := by simp
  failed := by simp
  none_after := by simp
  nodup := List.nodup_nil
  pending_lt := by simp
  once := by simp

theorem countP_length (h : LoadTrace log failure pending) :
    log.countP (Action.waitsFor log.length) = 0 := by
  rw [List.countP_eq_zero]
  intro a ha hw
  exact Nat.lt_irrefl _ (h.waits_lt a ha _ hw)

/-- One more action. A new task has the number of the call; a failed request is not loaded any more; a
load task is waited for when it is pending, and is not pending afterwards. -/
theorem append (h : LoadTrace log failure pending)
    (hnum : ∀ t, b.submits t → t = log.length) (hwait : ∀ t, b.waitsFor t → t < log.length)
    (hsub : ∀ req ∈ failure, req ∈ failure') (hfail : ∀ req, b.failsFor req → req ∈ failure')
    (hload : ∀ req, b.loadsFor req → req ∉ failure)
    (hnodup : pending'.Nodup) (hlt : ∀ t ∈ pending', t ≤ log.length)
    (hold : ∀ a ∈ log, ∀ req t, a.loadsFor req → a.submits t →
      (b.waitsFor t → t ∈ pending) ∧ (t ∈ pending' ↔ t ∈ pending ∧ b.waitsFor t = false))
    (hnew : ∀ req t, b.loadsFor req → b.submits t → t ∈ pending') :
    LoadTrace (log ++ [b]) failure' pending' where
  numbered := h.numbered.append hnum
  waits_lt a ha t ht := by
    rw [List.length_append, List.length_singleton]
    rcases List.mem_append.mp ha with ha | ha
    · exact Nat.lt_succ_of_lt (h.waits_lt a ha t ht)
    · obtain rfl := List.mem_singleton.mp ha
      exact Nat.lt_succ_of_lt (hwait t ht)
  failed a ha req hreq := by
    rcases List.mem_append.mp ha with ha | ha
    · exact hsub req (h.failed a ha req hreq)
    · obtain rfl := List.mem_singleton.mp ha
      exact hfail req hreq
  none_after req := by
    refine List.pairwise_append.mpr ⟨h.none_after req, List.pairwise_singleton _ _, ?_⟩
    intro a ha a' ha' hf
    obtain rfl := List.mem_singleton.mp ha'
    by_contra hl
    exact hload req (by simpa using hl) (h.failed a ha req hf)
  nodup := hnodup
  pending_lt t ht := by
    rw [List.length_append, List.length_singleton]
    exact Nat.lt_succ_of_le (hlt t ht)
  once a ha req t hl ht := by
    rw [List.countP_append, List.countP_singleton]
    rcases List.mem_append.mp ha with ha | ha
    · obtain ⟨hp, hp'⟩ := hold a ha req t hl ht
      rw [h.once a ha req t hl ht]
      cases hw : b.waitsFor t with
      | true => simp [hp hw, hp', hw]
      | false => simp [hp', hw]
    · obtain rfl := List.mem_singleton.mp ha
      have hnot : a.waitsFor t = false := by
        by_contra hw
        have := hwait t (by simpa using hw)
        rw [hnum t ht] at this
        exact Nat.lt_irrefl _ this
      rw [if_pos (hnew req t hl ht), hnot, hnum t ht, h.countP_length]
      simp

theorem load (h : LoadTrace log failure pending) {req : ReqId} (hreq : req ∉ failure)
    (l : Nat) (ids : List η) (shards : List Nat) (ptrs : List (List UInt64)) :
    LoadTrace (log ++ [.loadData l req ids shards ptrs (some log.length)]) failure
      (pending ++ [log.length]) := by
  refine h.append ?_ ?_ (fun _ hr => hr) ?_ ?_ ?_ ?_ ?_ ?_
  · simp [Action.submits, eq_comm]
  · simp [Action.waitsFor]
  · simp [Action.failsFor]
  · intro r hr
    obtain rfl : req = r := by simpa [Action.loadsFor] using hr
    exact hreq
  · refine List.nodup_append.mpr ⟨h.nodup, List.nodup_singleton _, ?_⟩
    intro t ht t' ht'
    rw [List.mem_singleton.mp ht']
    exact Nat.ne_of_lt (h.pending_lt t ht)
  · intro t ht
    rcases List.mem_append.mp ht with ht | ht
    · exact Nat.le_of_lt (h.pending_lt t ht)
    · exact Nat.le_of_eq (List.mem_singleton.mp ht)
  · intro a ha r t _ ht
    have hne : t ≠ log.length := Nat.ne_of_lt (h.numbered.lt ha ht)
    simp [Action.waitsFor, hne]
  · intro r t _ ht
    have : log.length = t := by simpa [Action.submits] using ht
    simp [this]

theorem load_failed (h : LoadTrace log failure pending) {req : ReqId} (hreq : req ∉ failure)
    (l : Nat) (ids : List η) (shards : List Nat) (ptrs : List (List UInt64)) :
    LoadTrace (log ++ [.loadData l req ids shards ptrs none]) (failure ++ [req]) pending := by
  refine h.append ?_ ?_ (fun _ hr => List.mem_append_left _ hr) ?_ ?_ h.nodup
    (fun t ht => Nat.le_of_lt (h.pending_lt t ht)) ?_ ?_
  · simp [Action.submits]
  · simp [Action.waitsFor]
  · intro r hr
    have : req = r := by simpa [Action.failsFor] using hr
    simp [this]
  · intro r hr
    obtain rfl : req = r := by simpa [Action.loadsFor] using hr
    exact hreq
  · simp [Action.waitsFor]
  · simp [Action.submits]

theorem wait {t : Task} (h : LoadTrace log failure (t :: pending)) (req : ReqId) (ok : Bool)
    (hsub : ∀ r ∈ failure, r ∈ failure') (hfail : ok = false → req ∈ failure') :
    LoadTrace (log ++ [.waitLoad req t ok]) failure' pending := by
  have hnodup := List.nodup_cons.mp h.nodup
  refine h.append ?_ ?_ hsub ?_ ?_ hnodup.2 ?_ ?_ ?_
  · simp [Action.submits]
  · intro t' ht'
    obtain rfl : t = t' := by simpa [Action.waitsFor] using ht'
    exact h.pending_lt t List.mem_cons_self
  · intro r hr
    obtain ⟨rfl, hok⟩ : req = r ∧ ok = false := by simpa [Action.failsFor] using hr
    exact hfail hok
  · simp [Action.loadsFor]
  · intro t' ht'
    exact Nat.le_of_lt (h.pending_lt t' (List.mem_cons_of_mem _ ht'))
  · intro a _ r t' _ _
    by_cases ht : t' = t
    · subst ht
      simp [Action.waitsFor, hnodup.1]
    · have hne : t ≠ t' := fun h => ht h.symm
      simp [Action.waitsFor, ht, hne]
  · simp [Action.submits]

theorem other (h : LoadTrace log failure pending) (hnum : ∀ t, b.submits t → t = log.length)
    (hload : ∀ req, b.loadsFor req = false) (hfail : ∀ req, b.failsFor req = false)
    (hwait : ∀ t, b.waitsFor t → t < log.length ∧
      ∀ a ∈ log, ∀ req, a.loadsFor req → a.submits t = false) :
    LoadTrace (log ++ [b]) failure pending := by
  refine h.append hnum (fun t ht => (hwait t ht).1) (fun _ hr => hr) ?_ ?_ h.nodup
    (fun t ht => Nat.le_of_lt (h.pending_lt t ht)) ?_ ?_
  · simp [hfail]
  · simp [hload]
  · intro a ha r t hl ht
    have hw : b.waitsFor t = false := by
      by_contra hw
      have := (hwait t (by simpa using hw)).2 a ha r hl
      simp [ht] at this
    simp [hw]
  · simp [hload]

theorem forward (h : LoadTrace log failure pending) (l : Nat) :
    LoadTrace (log ++ [.forward l]) failure pending :=
  h.other (by simp [Action.submits]) (by simp [Action.loadsFor]) (by simp [Action.failsFor])
    (by simp [Action.waitsFor])

theorem dump (h : LoadTrace log failure pending) (layer : LayerName) (ids : List η)
    (shards : List Nat) (ptrs : List (List UInt64)) {task : Option Task}
    (htask : ∀ t ∈ task, t = log.length) :
    LoadTrace (log ++ [.dumpData layer ids shards ptrs task]) failure pending := by
  refine h.other ?_ (by simp [Action.loadsFor]) (by simp [Action.failsFor])
    (by simp [Action.waitsFor])
  intro t ht
  exact htask t (by simpa [Action.submits] using ht)

theorem waitDumps (h : LoadTrace log failure pending) {acts : List (Action η)}
    (hacts : ∀ a ∈ acts, ∃ name t ok, a = .waitDump name t ok ∧
      ∃ ids shards ptrs, .dumpData name ids shards ptrs (some t) ∈ log) :
    LoadTrace (log ++ acts) failure pending := by
  induction acts generalizing log with
  | nil => rwa [List.append_nil]
  | cons a acts ih =>
    obtain ⟨name, t, ok, rfl, ids, shards, ptrs, hmem⟩ := hacts a List.mem_cons_self
    rw [List.append_cons]
    refine ih (h.other (by simp [Action.submits]) (by simp [Action.loadsFor])
      (by simp [Action.failsFor]) ?_) ?_
    · intro t' ht'
      obtain rfl : t = t' := by simpa [Action.waitsFor] using ht'
      have hdump : (Action.dumpData name ids shards ptrs (some t)).submits t = true := by
        simp [Action.submits]
      refine ⟨h.numbered.lt hmem hdump, fun a ha req hl => ?_⟩
      by_contra hsub
      obtain rfl := h.numbered.unique ha hmem (by simpa using hsub) hdump
      simp [Action.loadsFor] at hl
    · intro a ha
      obtain ⟨name', t', ok', heq, ids', shards', ptrs', hmem'⟩ :=
        hacts a (List.mem_cons_of_mem _ ha)
      exact ⟨name', t', ok', heq, ids', shards', ptrs', List.mem_append_left _ hmem'⟩

end LoadTrace

/-! ## Metadata -/

theorem dictSet_of_notMem {κ α : Type*} [DecidableEq κ] {d : List (κ × α)} {key : κ} (value : α)
    (h : key ∉ d.map Prod.fst) : dictSet d key value = d ++ [(key, value)] := if_neg h

/-- Rewriting ids in place keeps the requests and the blocks of their loads. -/
def SameLoads (metadata metadata' : ConnectorMetadata η) : Prop :=
  metadata'.map (fun x => (x.1, x.2.loadBlockIds.2)) = metadata.map fun x => (x.1, x.2.loadBlockIds.2)

theorem SameLoads.map {metadata metadata' : ConnectorMetadata η} (h : SameLoads metadata metadata')
    {f : RequestDispatchMeta η → RequestDispatchMeta η}
    (hf : ∀ d, (f d).loadBlockIds.2 = d.loadBlockIds.2) :
    SameLoads metadata (metadata'.map fun x => (x.1, f x.2)) := by
  rw [SameLoads, List.map_map, ← h]
  exact List.map_congr_left fun x _ => by simp [hf]

variable {x : ReqId × RequestDispatchMeta η}

theorem find?_of_nodup {metadata : ConnectorMetadata η} (h : (metadata.map Prod.fst).Nodup)
    (hx : x ∈ metadata) :
    metadata.find? (fun y => y.1 = x.1) = some x := by
  cases hfound : metadata.find? (fun y => y.1 = x.1) with
  | none => exact absurd (List.find?_eq_none.mp hfound x hx) (by simp)
  | some y =>
    have hid : y.1 = x.1 := by simpa using List.find?_some hfound
    rw [List.inj_on_of_nodup_map h (List.mem_of_find?_eq_some hfound) hx hid]

theorem SameLoads.find? {metadata metadata' : ConnectorMetadata η}
    (h : SameLoads metadata metadata') (hnodup : (metadata.map Prod.fst).Nodup) (hx : x ∈ metadata) :
    ((metadata'.find? fun y => y.1 = x.1).map fun y => y.2.loadBlockIds.2).getD [] =
      x.2.loadBlockIds.2 := by
  have hfind : ∀ l : ConnectorMetadata η,
      (l.find? fun y => y.1 = x.1).map (fun y => y.2.loadBlockIds.2) =
        ((l.map fun y => (y.1, y.2.loadBlockIds.2)).find? fun y => y.1 = x.1).map Prod.snd := by
    intro l
    rw [List.find?_map, Option.map_map]
    rfl
  rw [hfind, h, ← hfind, find?_of_nodup hnodup hx]
  rfl

theorem mem_of_loads {metadata : ConnectorMetadata η} (hx : x ∈ loads metadata) :
    x ∈ metadata := List.mem_of_mem_filter hx

theorem loads_nodup {metadata : ConnectorMetadata η} (h : (metadata.map Prod.fst).Nodup) :
    ((loads metadata).map Prod.fst).Nodup := h.sublist (List.filter_sublist.map _)

namespace WorkerConfig

theorem rewriteLoads_blocks (cfg : WorkerConfig η) (d : RequestDispatchMeta η) :
    (cfg.rewriteLoads d).loadBlockIds.2 = d.loadBlockIds.2 := by
  unfold rewriteLoads
  split <;> rfl

theorem rewriteDumps_loads (cfg : WorkerConfig η) (n : Nat) (d : RequestDispatchMeta η) :
    (cfg.rewriteDumps n d).loadBlockIds = d.loadBlockIds := by
  unfold rewriteDumps
  split <;> rfl

theorem length_loadKeys (cfg : WorkerConfig η) (d : RequestDispatchMeta η) :
    (cfg.loadKeys d).length = d.loadBlockIds.1.length := by
  unfold loadKeys rewriteLoads
  split <;> simp

/-- What `start_load_kv` puts into `request_data`. -/
def requestData (cfg : WorkerConfig η) (metadata : ConnectorMetadata η) :
    List (ReqId × List η × List (List (List UInt64))) :=
  (loads metadata).map fun x =>
    (x.1, cfg.loadKeys x.2, cfg.kvCacheLayout.extractBlockAddrs x.2.loadBlockIds.2)

theorem loads_rewriteLoads (cfg : WorkerConfig η) (metadata : ConnectorMetadata η) :
    loads (metadata.map fun x => (x.1, cfg.rewriteLoads x.2)) =
      (loads metadata).map fun x => (x.1, cfg.rewriteLoads x.2) := by
  have hempty : ∀ d : RequestDispatchMeta η,
      (cfg.rewriteLoads d).loadBlockIds.1.isEmpty = d.loadBlockIds.1.isEmpty := by
    intro d
    unfold rewriteLoads
    split <;> simp
  rw [loads, loads, List.filter_map]
  simp only [Function.comp_def, hempty]

theorem requestData_rewriteLoads (cfg : WorkerConfig η) (metadata : ConnectorMetadata η) :
    ((loads (metadata.map fun x => (x.1, cfg.rewriteLoads x.2))).map fun x =>
      (x.1, x.2.loadBlockIds.1, cfg.kvCacheLayout.extractBlockAddrs x.2.loadBlockIds.2)) =
      cfg.requestData metadata := by
  rw [requestData, loads_rewriteLoads, List.map_map]
  simp only [Function.comp_def, rewriteLoads_blocks]
  rfl

end WorkerConfig

namespace LayerWiseConnector

variable {cfg : WorkerConfig η} {metadata metadata' : ConnectorMetadata η}
  {c c' c'' : LayerWiseConnector η} {o : Outcomes} {l row : Nat}

/-! ## Loops over the requests -/

/-- What the loops of the load hooks keep: they extend the trace and the failures. -/
structure Extends (c c' : LayerWiseConnector η) : Prop where
  trace : c.trace <+: c'.trace
  failureReqIds : c.failureReqIds ⊆ c'.failureReqIds
  connectorMetadata : c'.connectorMetadata = c.connectorMetadata
  needLoad : c'.needLoad = c.needLoad
  requestData : c'.requestData = c.requestData
  dumpTasks : c'.dumpTasks = c.dumpTasks
  isSave : c'.isSave = c.isSave
  dumpTotalPtrs : c'.dumpTotalPtrs = c.dumpTotalPtrs

theorem Extends.refl (c : LayerWiseConnector η) : Extends c c :=
  ⟨List.prefix_rfl, List.Subset.refl _, rfl, rfl, rfl, rfl, rfl, rfl⟩

theorem Extends.trans (h : Extends c c') (h' : Extends c' c'') : Extends c c'' where
  trace := h.trace.trans h'.trace
  failureReqIds := List.Subset.trans h.failureReqIds h'.failureReqIds
  connectorMetadata := h'.connectorMetadata.trans h.connectorMetadata
  needLoad := h'.needLoad.trans h.needLoad
  requestData := h'.requestData.trans h.requestData
  dumpTasks := h'.dumpTasks.trans h.dumpTasks
  isSave := h'.isSave.trans h.isSave
  dumpTotalPtrs := h'.dumpTotalPtrs.trans h.dumpTotalPtrs

theorem Extends.foldl {α : Type*} {f : LayerWiseConnector η → α → LayerWiseConnector η}
    (hf : ∀ c x, Extends c (f c x)) (xs : List α) (c : LayerWiseConnector η) :
    Extends c (xs.foldl f c) := by
  induction xs generalizing c with
  | nil => exact .refl c
  | cons x xs ih => exact (hf c x).trans (ih (f c x))

theorem submitRequest_extends (o : Outcomes) (metadata : ConnectorMetadata η) (l row : Nat)
    (c : LayerWiseConnector η) (data : ReqId × List η × List (List (List UInt64))) :
    Extends c (submitRequest o metadata l row c data) := by
  obtain ⟨req, ids, ptrs⟩ := data
  unfold submitRequest
  dsimp only
  split_ifs
  · exact .refl c
  · exact ⟨List.prefix_append _ _, List.Subset.refl _, rfl, rfl, rfl, rfl, rfl, rfl⟩
  · exact ⟨List.prefix_append _ _, List.subset_append_left _ _, rfl, rfl, rfl, rfl, rfl, rfl⟩

theorem waitRequest_extends (o : Outcomes) (metadata : ConnectorMetadata η) (l : Nat)
    (c : LayerWiseConnector η) (x : ReqId × Task) : Extends c (waitRequest o metadata l c x) := by
  unfold waitRequest
  split_ifs
  · exact ⟨List.prefix_append _ _, List.Subset.refl _, rfl, rfl, rfl, rfl, rfl, rfl⟩
  · exact ⟨List.prefix_append _ _, List.subset_append_left _ _, rfl, rfl, rfl, rfl, rfl, rfl⟩

theorem waitForLayerLoad_extends (cfg : WorkerConfig η) (o : Outcomes) (c : LayerWiseConnector η)
    (kv : KvLayer) : Extends c (waitForLayerLoad cfg o c kv) := by
  unfold waitForLayerLoad
  split
  · exact .refl c
  · dsimp only
    split_ifs
    · exact (Extends.foldl (waitRequest_extends o _ _) _ c).trans
        (.foldl (submitRequest_extends o _ _ _) _ _)
    · exact .foldl (waitRequest_extends o _ _) _ c
    · exact .refl c

theorem putLoadTask_loadTasks_self (c : LayerWiseConnector η) (l : Nat) (req : ReqId) (t : Task) :
    (c.putLoadTask l req t).loadTasks l = dictSet (c.loadTasks l) req t := Function.update_self ..

theorem putLoadTask_loadTasks_of_ne (c : LayerWiseConnector η) {l l' : Nat} (h : l' ≠ l)
    (req : ReqId) (t : Task) : (c.putLoadTask l req t).loadTasks l' = c.loadTasks l' :=
  Function.update_of_ne h ..

/-- The blocks of the failed requests are invalid. -/
def FailedInvalid (metadata : ConnectorMetadata η) (c : LayerWiseConnector η) : Prop :=
  ∀ x ∈ loads metadata, x.1 ∈ c.failureReqIds → ∀ v ∈ x.2.loadBlockIds.2, v ∈ c.invalidBlockIds

theorem FailedInvalid.fail (h : FailedInvalid metadata c) (hmd : SameLoads metadata metadata')
    (hnodup : (metadata.map Prod.fst).Nodup) (req : ReqId) (a : Action η) :
    FailedInvalid metadata ((c.record a).fail metadata' req) := by
  intro x hx hfail v hv
  rcases List.mem_append.mp hfail with hfail | hfail
  · exact List.mem_append_left _ (h x hx hfail v hv)
  · refine List.mem_append_right _ ?_
    rw [← List.mem_singleton.mp hfail, hmd.find? hnodup (mem_of_loads hx)]
    exact hv

/-- The loads of a layer while they are submitted; `seen` are the requests the loop has seen. -/
structure Submitting (cfg : WorkerConfig η) (metadata : ConnectorMetadata η) (l : Nat)
    (seen : ConnectorMetadata η) (c : LayerWiseConnector η) : Prop where
  ledger : LoadTrace c.trace c.failureReqIds ((c.loadTasks l).map Prod.snd)
  invalid : FailedInvalid metadata c
  tasks : ∀ y ∈ c.loadTasks l, ∃ x ∈ seen, x.1 = y.1 ∧ cfg.loadAction x l (some y.2) ∈ c.trace
  submitted : ∀ x ∈ seen, x.1 ∉ c.failureReqIds → ∃ t, (x.1, t) ∈ c.loadTasks l
  later : ∀ l', l < l' → c.loadTasks l' = []

theorem Submitting.submitRequest {seen : ConnectorMetadata η} (h : Submitting cfg metadata l seen c)
    (hmd : SameLoads metadata metadata') (hnodup : (metadata.map Prod.fst).Nodup)
    (hx : x.1 ∉ seen.map Prod.fst)
    (hrow : (cfg.kvCacheLayout.extractBlockAddrs x.2.loadBlockIds.2).getD row [] =
      cfg.layerPtrs l x.2.loadBlockIds.2) :
    Submitting cfg metadata l (seen ++ [x]) (submitRequest o metadata' l row c
      (x.1, cfg.loadKeys x.2, cfg.kvCacheLayout.extractBlockAddrs x.2.loadBlockIds.2)) := by
  have haction : ∀ task, Action.loadData l x.1 (cfg.loadKeys x.2)
      (List.replicate (cfg.loadKeys x.2).length l)
      ((cfg.kvCacheLayout.extractBlockAddrs x.2.loadBlockIds.2).getD row []) task =
      cfg.loadAction x l task := by
    intro task
    rw [hrow, WorkerConfig.loadAction, WorkerConfig.length_loadKeys]
  have hsub := submitRequest_extends o metadata' l row c
    (x.1, cfg.loadKeys x.2, cfg.kvCacheLayout.extractBlockAddrs x.2.loadBlockIds.2)
  unfold LayerWiseConnector.submitRequest at hsub ⊢
  dsimp only at hsub ⊢
  split_ifs at hsub ⊢ with hfail hok
  · -- The request has failed before.
    refine ⟨h.ledger, h.invalid, ?_, ?_, h.later⟩
    · intro y hy
      obtain ⟨x', hx', hreq, hmem⟩ := h.tasks y hy
      exact ⟨x', List.mem_append_left _ hx', hreq, hmem⟩
    · intro x' hx' hnot
      rcases List.mem_append.mp hx' with hx' | hx'
      · exact h.submitted x' hx' hnot
      · obtain rfl := List.mem_singleton.mp hx'
        exact absurd hfail hnot
  · -- There is a task for it.
    have hkey : x.1 ∉ (c.loadTasks l).map Prod.fst := by
      intro hmem
      obtain ⟨y, hy, hreq⟩ := List.mem_map.mp hmem
      obtain ⟨x', hx', hreq', -⟩ := h.tasks y hy
      exact hx (List.mem_map.mpr ⟨x', hx', hreq'.trans hreq⟩)
    have htasks : ∀ a, ((c.record a).putLoadTask l x.1 c.trace.length).loadTasks l =
        c.loadTasks l ++ [(x.1, c.trace.length)] := by
      intro a
      rw [putLoadTask_loadTasks_self]
      exact dictSet_of_notMem _ hkey
    refine ⟨?_, h.invalid, ?_, ?_, ?_⟩
    · rw [htasks, List.map_append]
      exact h.ledger.load hfail _ _ _ _
    · intro y hy
      rw [htasks] at hy
      rcases List.mem_append.mp hy with hy | hy
      · obtain ⟨x', hx', hreq, hmem⟩ := h.tasks y hy
        exact ⟨x', List.mem_append_left _ hx', hreq, hsub.trace.subset hmem⟩
      · obtain rfl := List.mem_singleton.mp hy
        refine ⟨x, List.mem_append_right _ (List.mem_singleton_self x), rfl, ?_⟩
        rw [← haction]
        exact List.mem_append_right _ (List.mem_singleton_self _)
    · intro x' hx' hnot
      rw [htasks]
      rcases List.mem_append.mp hx' with hx' | hx'
      · obtain ⟨t, ht⟩ := h.submitted x' hx' hnot
        exact ⟨t, List.mem_append_left _ ht⟩
      · obtain rfl := List.mem_singleton.mp hx'
        exact ⟨_, List.mem_append_right _ (List.mem_singleton_self _)⟩
    · intro l' hl'
      rw [putLoadTask_loadTasks_of_ne _ (Nat.ne_of_gt hl')]
      exact h.later l' hl'
  · -- The submission fails.
    refine ⟨h.ledger.load_failed hfail _ _ _ _, h.invalid.fail hmd hnodup _ _, ?_, ?_, h.later⟩
    · intro y hy
      obtain ⟨x', hx', hreq, hmem⟩ := h.tasks y hy
      exact ⟨x', List.mem_append_left _ hx', hreq, hsub.trace.subset hmem⟩
    · intro x' hx' hnot
      rcases List.mem_append.mp hx' with hx' | hx'
      · exact h.submitted x' hx' fun hmem => hnot (hsub.failureReqIds hmem)
      · obtain rfl := List.mem_singleton.mp hx'
        exact absurd (List.mem_append_right _ (List.mem_singleton_self _)) hnot

theorem Submitting.foldl (hmd : SameLoads metadata metadata')
    (hnodup : (metadata.map Prod.fst).Nodup) (hrow : ∀ blocks,
      (cfg.kvCacheLayout.extractBlockAddrs blocks).getD row [] = cfg.layerPtrs l blocks) :
    ∀ (xs seen : ConnectorMetadata η) (c : LayerWiseConnector η), seen ++ xs = loads metadata →
      Submitting cfg metadata l seen c → Submitting cfg metadata l (loads metadata)
        ((xs.map fun x => (x.1, cfg.loadKeys x.2,
          cfg.kvCacheLayout.extractBlockAddrs x.2.loadBlockIds.2)).foldl
            (LayerWiseConnector.submitRequest o metadata' l row) c) := by
  intro xs
  induction xs with
  | nil =>
    intro seen c h hc
    rw [List.append_nil] at h
    exact h ▸ hc
  | cons x xs ih =>
    intro seen c h hc
    have hx : x.1 ∉ seen.map Prod.fst := by
      have hn := loads_nodup hnodup
      rw [← h, List.map_append, List.nodup_append] at hn
      exact fun hmem => hn.2.2 _ hmem _ List.mem_cons_self rfl
    refine ih (seen ++ [x]) _ (by rw [List.append_assoc]; exact h) ?_
    exact hc.submitRequest hmd hnodup hx (hrow _)

/-- The loads of a layer while they are waited for; `rest` are the tasks the loop has not seen. -/
structure Waiting (cfg : WorkerConfig η) (metadata : ConnectorMetadata η) (l : Nat)
    (rest : List (ReqId × Task)) (c : LayerWiseConnector η) : Prop where
  ledger : LoadTrace c.trace c.failureReqIds (rest.map Prod.snd)
  invalid : FailedInvalid metadata c
  waited : ∀ x ∈ loads metadata, x.1 ∉ c.failureReqIds →
    (∃ t, [cfg.loadAction x l (some t), .waitLoad x.1 t true].Sublist c.trace) ∨
      ∃ t, (x.1, t) ∈ rest ∧ cfg.loadAction x l (some t) ∈ c.trace
  later : ∀ l', l < l' → c.loadTasks l' = []

theorem Submitting.waiting (h : Submitting cfg metadata l (loads metadata) c)
    (hnodup : (metadata.map Prod.fst).Nodup) : Waiting cfg metadata l (c.loadTasks l) c := by
  refine ⟨h.ledger, h.invalid, fun x hx hnot => .inr ?_, h.later⟩
  obtain ⟨t, ht⟩ := h.submitted x hx hnot
  obtain ⟨x', hx', hreq, hmem⟩ := h.tasks _ ht
  obtain rfl := List.inj_on_of_nodup_map (loads_nodup hnodup) hx' hx hreq
  exact ⟨t, ht, hmem⟩

theorem Waiting.waitRequest {y : ReqId × Task} {rest : List (ReqId × Task)}
    (h : Waiting cfg metadata l (y :: rest) c) (hmd : SameLoads metadata metadata')
    (hnodup : (metadata.map Prod.fst).Nodup) :
    Waiting cfg metadata l rest (waitRequest o metadata' l c y) := by
  have hsub := waitRequest_extends o metadata' l c y
  have hold : ∀ x ∈ loads metadata,
      x.1 ∉ (LayerWiseConnector.waitRequest o metadata' l c y).failureReqIds →
      (∃ t, [cfg.loadAction x l (some t), .waitLoad x.1 t true].Sublist
        (LayerWiseConnector.waitRequest o metadata' l c y).trace) ∨
      ∃ t, (x.1, t) ∈ y :: rest ∧ cfg.loadAction x l (some t) ∈ c.trace := by
    intro x hx hnot
    rcases h.waited x hx fun hmem => hnot (hsub.failureReqIds hmem) with ⟨t, ht⟩ | ⟨t, ht, hmem⟩
    · exact .inl ⟨t, ht.trans hsub.trace.sublist⟩
    · exact .inr ⟨t, ht, hmem⟩
  unfold LayerWiseConnector.waitRequest at hsub hold ⊢
  split_ifs at hsub hold ⊢ with hok
  · refine ⟨h.ledger.wait _ _ (fun _ hr => hr) (fun hf => absurd hf (by simp)), h.invalid, ?_, h.later⟩
    intro x hx hnot
    rcases hold x hx hnot with hw | ⟨t, ht, hmem⟩
    · exact .inl hw
    · rcases List.mem_cons.mp ht with rfl | ht
      · refine .inl ⟨t, ?_⟩
        exact (List.singleton_sublist.mpr hmem).append (List.Sublist.refl _)
      · exact .inr ⟨t, ht, hsub.trace.subset hmem⟩
  · refine ⟨?_, h.invalid.fail hmd hnodup _ _, ?_, h.later⟩
    · exact h.ledger.wait _ _ (fun _ hr => List.mem_append_left _ hr)
        fun _ => List.mem_append_right _ (List.mem_singleton_self _)
    · intro x hx hnot
      rcases hold x hx hnot with hw | ⟨t, ht, hmem⟩
      · exact .inl hw
      · rcases List.mem_cons.mp ht with rfl | ht
        · exact absurd (List.mem_append_right _ (List.mem_singleton_self _)) hnot
        · exact .inr ⟨t, ht, hsub.trace.subset hmem⟩

theorem Waiting.foldl (hmd : SameLoads metadata metadata') (hnodup : (metadata.map Prod.fst).Nodup) :
    ∀ (rest : List (ReqId × Task)) (c : LayerWiseConnector η), Waiting cfg metadata l rest c →
      Waiting cfg metadata l [] (rest.foldl (LayerWiseConnector.waitRequest o metadata' l) c) := by
  intro rest
  induction rest with
  | nil => exact fun c hc => hc
  | cons y rest ih => exact fun c hc => ih _ (hc.waitRequest hmd hnodup)

theorem Waiting.next (h : Waiting cfg metadata l [] c) : Submitting cfg metadata (l + 1) [] c := by
  have htasks : c.loadTasks (l + 1) = [] := h.later _ (Nat.lt_succ_self l)
  refine ⟨?_, h.invalid, ?_, by simp, fun l' hl' => h.later l' (Nat.lt_of_succ_lt hl')⟩
  · rw [htasks]
    exact h.ledger
  · rw [htasks]
    simp

/-! ## The hooks for saving -/

theorem saveKvLayer_loads (cfg : WorkerConfig η) (o : StoreOutcomes) (c : LayerWiseConnector η)
    (kv : KvLayer) :
    (saveKvLayer cfg o c kv).loadTasks = c.loadTasks ∧
    (saveKvLayer cfg o c kv).needLoad = c.needLoad ∧
    (saveKvLayer cfg o c kv).requestData = c.requestData ∧
    (saveKvLayer cfg o c kv).failureReqIds = c.failureReqIds ∧
    (saveKvLayer cfg o c kv).invalidBlockIds = c.invalidBlockIds := by
  unfold saveKvLayer dumpLayer
  split
  · exact ⟨rfl, rfl, rfl, rfl, rfl⟩
  · dsimp only
    split_ifs <;> exact ⟨rfl, rfl, rfl, rfl, rfl⟩

theorem saveKvLayer_sameLoads {o : StoreOutcomes}
    (h : ∃ m, c.connectorMetadata = some m ∧ SameLoads metadata m) :
    ∃ m, (saveKvLayer cfg o c kv).connectorMetadata = some m ∧ SameLoads metadata m := by
  obtain ⟨m, hm, hsame⟩ := h
  have hmap := hsame.map fun d =>
    congrArg Prod.snd (cfg.rewriteDumps_loads (kv.layerId - cfg.firstLayerId) d)
  unfold saveKvLayer dumpLayer
  rw [hm]
  dsimp only
  split_ifs
  · exact ⟨m, hm, hsame⟩
  · exact ⟨_, rfl, hmap⟩
  · exact ⟨_, rfl, hmap⟩
  · exact ⟨_, rfl, hmap⟩

theorem saveKvLayer_cases (cfg : WorkerConfig η) (o : StoreOutcomes) (c : LayerWiseConnector η)
    (kv : KvLayer) :
    ((saveKvLayer cfg o c kv).trace = c.trace ∧ (saveKvLayer cfg o c kv).dumpTasks = c.dumpTasks) ∨
    ∃ ids shards ptrs,
      ((saveKvLayer cfg o c kv).trace = c.trace ++ [.dumpData kv.name ids shards ptrs none] ∧
        (saveKvLayer cfg o c kv).dumpTasks = c.dumpTasks) ∨
      ((saveKvLayer cfg o c kv).trace =
          c.trace ++ [.dumpData kv.name ids shards ptrs (some c.trace.length)] ∧
        (saveKvLayer cfg o c kv).dumpTasks = dictSet c.dumpTasks kv.name c.trace.length) := by
  unfold saveKvLayer dumpLayer
  split
  · exact .inl ⟨rfl, rfl⟩
  · dsimp only
    split_ifs
    · exact .inl ⟨rfl, rfl⟩
    · exact .inr ⟨_, _, _, .inr ⟨rfl, rfl⟩⟩
    · exact .inr ⟨_, _, _, .inl ⟨rfl, rfl⟩⟩
    · exact .inl ⟨rfl, rfl⟩

/-- Every dump task has been returned by a call of `dump_data`. -/
def DumpTasksMade (c : LayerWiseConnector η) : Prop :=
  ∀ y ∈ c.dumpTasks, ∃ ids shards ptrs, .dumpData y.1 ids shards ptrs (some y.2) ∈ c.trace

theorem mem_dictSet {κ α : Type*} [DecidableEq κ] {d : List (κ × α)} {key : κ} {value : α}
    {y : κ × α} (h : y ∈ dictSet d key value) : y ∈ d ∨ y = (key, value) := by
  unfold dictSet at h
  split_ifs at h
  · obtain ⟨x, hx, rfl⟩ := List.mem_map.mp h
    split_ifs
    · exact .inr rfl
    · exact .inl hx
  · simpa using h

theorem DumpTasksMade.saveKvLayer {o : StoreOutcomes} (h : DumpTasksMade c) (kv : KvLayer) :
    DumpTasksMade (saveKvLayer cfg o c kv) := by
  intro y hy
  rcases saveKvLayer_cases cfg o c kv with ⟨htrace, htasks⟩ | ⟨ids, shards, ptrs, ⟨htrace, htasks⟩ |
    ⟨htrace, htasks⟩⟩ <;> rw [htasks] at hy <;> rw [htrace]
  · exact h y hy
  · obtain ⟨ids', shards', ptrs', hmem⟩ := h y hy
    exact ⟨ids', shards', ptrs', List.mem_append_left _ hmem⟩
  · rcases mem_dictSet hy with hy | rfl
    · obtain ⟨ids', shards', ptrs', hmem⟩ := h y hy
      exact ⟨ids', shards', ptrs', List.mem_append_left _ hmem⟩
    · exact ⟨ids, shards, ptrs, List.mem_append_right _ (List.mem_singleton_self _)⟩

theorem waitDumps_eq (o : StoreOutcomes) (kvs : List KvLayer) (c : LayerWiseConnector η) :
    ∃ acts, waitDumps o kvs c = { c with trace := c.trace ++ acts } ∧
      ∀ a ∈ acts, ∃ name t ok, a = .waitDump name t ok ∧ (name, t) ∈ c.dumpTasks := by
  induction kvs generalizing c with
  | nil => exact ⟨[], by rw [List.append_nil]; rfl, by simp⟩
  | cons kv kvs ih =>
    rw [waitDumps]
    split
    · exact ih c
    · rename_i task htask
      have hmem : (kv.name, task) ∈ c.dumpTasks := by
        obtain ⟨l₁, l₂, heq, -⟩ := List.lookup_eq_some_iff.mp htask
        rw [heq]
        simp
      split
      · obtain ⟨acts, heq, hacts⟩ := ih (c.record (.waitDump kv.name task true))
        refine ⟨.waitDump kv.name task true :: acts, ?_, ?_⟩
        · rw [heq]
          simp [record]
        · intro a ha
          rcases List.mem_cons.mp ha with rfl | ha
          · exact ⟨_, _, _, rfl, hmem⟩
          · exact hacts a ha
      · refine ⟨[.waitDump kv.name task false], rfl, ?_⟩
        intro a ha
        exact ⟨_, _, _, List.mem_singleton.mp ha, hmem⟩

/-! ## The layers of a step -/

/-- The connector when `k` layers have run. -/
structure AtLayer (cfg : WorkerConfig η) (metadata : ConnectorMetadata η) (first k : Nat)
    (c : LayerWiseConnector η) : Prop where
  sameLoads : ∃ m, c.connectorMetadata = some m ∧ SameLoads metadata m
  needLoad : c.needLoad = !(loads metadata).isEmpty
  requestData : c.requestData = cfg.requestData metadata
  /-- The loads of the next layer, if there is one, are submitted. -/
  submitting : Submitting cfg metadata (first + k)
    (if k < cfg.kvCaches.length then loads metadata else []) c
  loaded : ∀ x ∈ loads metadata, x.1 ∉ c.failureReqIds → ∀ j < k, ∃ t,
    [cfg.loadAction x (first + j) (some t), .waitLoad x.1 t true, .forward (first + j)].Sublist c.trace
  dumps : DumpTasksMade c

theorem AtLayer.waitForLayerLoad_eq {k : Nat} {m : ConnectorMetadata η}
    (hids : cfg.kvCaches.map KvLayer.layerId = List.range' first cfg.kvCaches.length)
    (h : AtLayer cfg metadata first k c) (hm : c.connectorMetadata = some m)
    (hkv : kv.layerId = first + k) :
    LayerWiseConnector.waitForLayerLoad cfg o c kv =
      if k + 1 < cfg.kvCaches.length then
        submitRequestLoadTasksForLayer o (first + (k + 1)) (k + 1) m
          ((c.loadTasks (first + k)).foldl (waitRequest o m (first + k)) c)
      else (c.loadTasks (first + k)).foldl (waitRequest o m (first + k)) c := by
  have hnext : first + (k + 1) ∈ cfg.layerIds ↔ k + 1 < cfg.kvCaches.length := by
    rw [WorkerConfig.Consecutive.layerIds_eq hids, List.mem_range'_1]
    omega
  have hrow : first + (k + 1) - cfg.firstLayerId = k + 1 := by
    rw [WorkerConfig.Consecutive.firstLayerId_eq hids, Nat.add_sub_cancel_left]
  unfold LayerWiseConnector.waitForLayerLoad
  rw [hm, hkv]
  simp only [Nat.add_assoc, hnext, hrow]
  by_cases hneed : c.needLoad = true
  · rw [if_pos hneed]
  · have hnil : loads metadata = [] := by
      rw [h.needLoad] at hneed
      simpa using hneed
    have hempty : c.loadTasks (first + k) = [] := by
      rw [List.eq_nil_iff_forall_not_mem]
      intro y hy
      obtain ⟨x, hx, -⟩ := h.submitting.tasks y hy
      simp [hnil] at hx
    have hdata : c.requestData = [] := by
      rw [h.requestData, WorkerConfig.requestData, hnil, List.map_nil]
    rw [if_neg hneed, hempty, List.foldl_nil, submitRequestLoadTasksForLayer, hdata, List.foldl_nil,
      ite_self]

theorem AtLayer.waitForLayerLoad {k : Nat}
    (hids : cfg.kvCaches.map KvLayer.layerId = List.range' first cfg.kvCaches.length)
    (hnodup : (metadata.map Prod.fst).Nodup) (h : AtLayer cfg metadata first k c)
    (hk : k < cfg.kvCaches.length) (hkv : kv.layerId = first + k) :
    Extends c (waitForLayerLoad cfg o c kv) ∧
    Submitting cfg metadata (first + (k + 1))
      (if k + 1 < cfg.kvCaches.length then loads metadata else []) (waitForLayerLoad cfg o c kv) ∧
    ∀ x ∈ loads metadata, x.1 ∉ (waitForLayerLoad cfg o c kv).failureReqIds →
      ∃ t, [cfg.loadAction x (first + k) (some t), .waitLoad x.1 t true].Sublist
        (waitForLayerLoad cfg o c kv).trace := by
  obtain ⟨m, hm, hsame⟩ := h.sameLoads
  have hsubmitting := h.submitting
  rw [if_pos hk] at hsubmitting
  have hwaiting : Waiting cfg metadata (first + k) []
      ((c.loadTasks (first + k)).foldl (waitRequest o m (first + k)) c) :=
    Waiting.foldl hsame hnodup _ _ (hsubmitting.waiting hnodup)
  have hext : Extends c ((c.loadTasks (first + k)).foldl (waitRequest o m (first + k)) c) :=
    .foldl (waitRequest_extends o m _) _ _
  rw [h.waitForLayerLoad_eq hids hm hkv]
  generalize (c.loadTasks (first + k)).foldl (waitRequest o m (first + k)) c = c₁ at hwaiting hext ⊢
  split_ifs with hlt
  · -- There is a next layer.
    have hext' : Extends c₁ (submitRequestLoadTasksForLayer o (first + (k + 1)) (k + 1) m c₁) :=
      .foldl (submitRequest_extends o m _ _) _ _
    refine ⟨hext.trans hext', ?_, ?_⟩
    · rw [submitRequestLoadTasksForLayer, hext.requestData, h.requestData]
      exact Submitting.foldl hsame hnodup
        (WorkerConfig.Consecutive.extractBlockAddrs_getD hids hlt) _ [] c₁ (List.nil_append _)
        hwaiting.next
    · intro x hx hnot
      rcases hwaiting.waited x hx fun hmem => hnot (hext'.failureReqIds hmem) with
        ⟨t, ht⟩ | ⟨t, ht, -⟩
      · exact ⟨t, ht.trans hext'.trace.sublist⟩
      · simp at ht
  · -- This is the last layer.
    refine ⟨hext, hwaiting.next, ?_⟩
    intro x hx hnot
    rcases hwaiting.waited x hx hnot with hw | ⟨t, ht, -⟩
    · exact hw
    · simp at ht

theorem AtLayer.runLayer {k : Nat} {o : StoreOutcomes}
    (hids : cfg.kvCaches.map KvLayer.layerId = List.range' first cfg.kvCaches.length)
    (hnodup : (metadata.map Prod.fst).Nodup) (h : AtLayer cfg metadata first k c)
    (hk : k < cfg.kvCaches.length) (hkv : kv.layerId = first + k) :
    AtLayer cfg metadata first (k + 1) (runLayer cfg o c kv) := by
  obtain ⟨hext, hsub, hwaited⟩ := h.waitForLayerLoad (o := o.loads) hids hnodup hk hkv
  unfold LayerWiseConnector.runLayer
  rw [hkv]
  generalize LayerWiseConnector.waitForLayerLoad cfg o.loads c kv = c₁ at hext hsub hwaited
  obtain ⟨htasks, hneed, hdata, hfail, hinv⟩ := saveKvLayer_loads cfg o
    (c₁.record (.forward (first + k))) kv
  have hmade : DumpTasksMade (c₁.record (.forward (first + k))) := by
    intro y hy
    obtain ⟨ids, shards, ptrs, hmem⟩ := h.dumps y (hext.dumpTasks ▸ hy)
    exact ⟨ids, shards, ptrs, List.mem_append_left _ (hext.trace.subset hmem)⟩
  have hledger : LoadTrace (saveKvLayer cfg o (c₁.record (.forward (first + k))) kv).trace
      c₁.failureReqIds ((c₁.loadTasks (first + (k + 1))).map Prod.snd) := by
    have hforward := hsub.ledger.forward (first + k)
    rcases saveKvLayer_cases cfg o (c₁.record (.forward (first + k))) kv with
      ⟨htrace, -⟩ | ⟨ids, shards, ptrs, ⟨htrace, -⟩ | ⟨htrace, -⟩⟩ <;> rw [htrace]
    · exact hforward
    · exact hforward.dump _ _ _ _ (by simp)
    · exact hforward.dump _ _ _ _ fun t ht => (Option.some.inj ht).symm
  have hgrow : c₁.trace ++ [.forward (first + k)] <+:
      (saveKvLayer cfg o (c₁.record (.forward (first + k))) kv).trace := by
    rcases saveKvLayer_cases cfg o (c₁.record (.forward (first + k))) kv with
      ⟨htrace, -⟩ | ⟨ids, shards, ptrs, ⟨htrace, -⟩ | ⟨htrace, -⟩⟩ <;> rw [htrace]
    · exact List.prefix_rfl
    · exact List.prefix_append _ _
    · exact List.prefix_append _ _
  have hprefix : c₁.trace <+: (saveKvLayer cfg o (c₁.record (.forward (first + k))) kv).trace :=
    (List.prefix_append _ _).trans hgrow
  refine ⟨?_, ?_, ?_, ⟨?_, ?_, ?_, ?_, ?_⟩, ?_, hmade.saveKvLayer kv⟩
  · obtain ⟨m, hm, hsame⟩ := h.sameLoads
    exact saveKvLayer_sameLoads ⟨m, hext.connectorMetadata.trans hm, hsame⟩
  · exact hneed.trans (hext.needLoad.trans h.needLoad)
  · exact hdata.trans (hext.requestData.trans h.requestData)
  · rw [hfail, htasks]
    exact hledger
  · intro x hx hmem v hv
    rw [hinv]
    exact hsub.invalid x hx (hfail ▸ hmem) v hv
  · intro y hy
    obtain ⟨x, hx, hreq, hmem⟩ := hsub.tasks y (htasks ▸ hy)
    exact ⟨x, hx, hreq, hprefix.subset hmem⟩
  · intro x hx hnot
    rw [htasks]
    exact hsub.submitted x hx (hfail ▸ hnot)
  · intro l' hl'
    rw [htasks]
    exact hsub.later l' hl'
  · intro x hx hnot j hj
    rw [hfail] at hnot
    rcases Nat.lt_succ_iff_lt_or_eq.mp hj with hj | rfl
    · obtain ⟨t, ht⟩ := h.loaded x hx (fun hmem => hnot (hext.failureReqIds hmem)) j hj
      exact ⟨t, ht.trans (hext.trace.trans hprefix).sublist⟩
    · obtain ⟨t, ht⟩ := hwaited x hx hnot
      have hrun := ht.append (List.Sublist.refl [Action.forward (first + j)])
      exact ⟨t, List.Sublist.trans hrun hgrow.sublist⟩

theorem AtLayer.foldl {o : StoreOutcomes}
    (hids : cfg.kvCaches.map KvLayer.layerId = List.range' first cfg.kvCaches.length)
    (hnodup : (metadata.map Prod.fst).Nodup) :
    ∀ (kvs ran : List KvLayer) (c : LayerWiseConnector η), ran ++ kvs = cfg.kvCaches →
      AtLayer cfg metadata first ran.length c →
      AtLayer cfg metadata first cfg.kvCaches.length
        (kvs.foldl (LayerWiseConnector.runLayer cfg o) c) := by
  intro kvs
  induction kvs with
  | nil =>
    intro ran c h hc
    rw [List.append_nil] at h
    exact h ▸ hc
  | cons kv kvs ih =>
    intro ran c h hc
    have hlt : ran.length < cfg.kvCaches.length := by
      rw [← h, List.length_append, List.length_cons]
      omega
    have hkv := WorkerConfig.Consecutive.layerId_of_append hids h
    refine ih (ran ++ [kv]) _ (by rw [List.append_assoc]; exact h) ?_
    rw [List.length_append, List.length_singleton]
    exact hc.runLayer hids hnodup hlt hkv

theorem AtLayer.submitFirst {m : ConnectorMetadata η}
    (hids : cfg.kvCaches.map KvLayer.layerId = List.range' first cfg.kvCaches.length)
    (hnodup : (metadata.map Prod.fst).Nodup) (hm : c.connectorMetadata = some m)
    (hsame : SameLoads metadata m) (hneed : c.needLoad = !(loads metadata).isEmpty)
    (hdata : c.requestData = cfg.requestData metadata) (hdumps : c.dumpTasks = [])
    (hbegin : Submitting cfg metadata first [] c) :
    AtLayer cfg metadata first 0
      (if c.needLoad then submitRequestLoadTasksForLayer o cfg.firstLayerId 0 m c else c) := by
  have hpos : 0 < cfg.kvCaches.length := List.length_pos_of_ne_nil cfg.kvCaches_ne
  have hext : Extends c (submitRequestLoadTasksForLayer o first 0 m c) :=
    .foldl (submitRequest_extends o m _ _) _ _
  rw [WorkerConfig.Consecutive.firstLayerId_eq hids]
  split
  · refine ⟨⟨m, hext.connectorMetadata.trans hm, hsame⟩, hext.needLoad.trans hneed,
      hext.requestData.trans hdata, ?_, by simp, ?_⟩
    · rw [if_pos hpos, submitRequestLoadTasksForLayer, hdata]
      refine Submitting.foldl hsame hnodup ?_ _ [] c (List.nil_append _) hbegin
      exact WorkerConfig.Consecutive.extractBlockAddrs_getD hids hpos
    · intro y hy
      rw [hext.dumpTasks, hdumps] at hy
      simp at hy
  · rename_i hload
    have hnil : loads metadata = [] := by
      rw [hneed] at hload
      simpa using hload
    refine ⟨⟨m, hm, hsame⟩, hneed, hdata, ?_, by simp, ?_⟩
    · rw [if_pos hpos, hnil]
      exact hbegin
    · intro y hy
      rw [hdumps] at hy
      simp at hy

theorem AtLayer.startLoadKv
    (hids : cfg.kvCaches.map KvLayer.layerId = List.range' first cfg.kvCaches.length)
    (hnodup : (metadata.map Prod.fst).Nodup) (hidle : c.dumpTasks = []) :
    AtLayer cfg metadata first 0 (startLoadKv cfg o (c.bindConnectorMetadata metadata)) := by
  unfold LayerWiseConnector.startLoadKv beginLoads bindConnectorMetadata
  refine AtLayer.submitFirst hids hnodup rfl (SameLoads.map rfl cfg.rewriteLoads_blocks) ?_
    (cfg.requestData_rewriteLoads metadata) hidle ?_
  · dsimp only
    rw [cfg.requestData_rewriteLoads, WorkerConfig.requestData, List.isEmpty_map]
  · exact ⟨.nil, fun _ _ hmem => absurd hmem (by simp), by simp, by simp, fun _ _ => rfl⟩

/-! ## Steps -/

/-- Between steps nothing is being saved. -/
structure Idle (c : LayerWiseConnector η) : Prop where
  isSave : c.isSave = false
  dumpTasks : c.dumpTasks = []
  dumpTotalPtrs : c.dumpTotalPtrs = none

/-- Without anything to save there are no dump tasks and no pointers. -/
def SaveInv (c : LayerWiseConnector η) : Prop :=
  c.isSave = false → c.dumpTasks = [] ∧ c.dumpTotalPtrs = none

theorem SaveInv.of_extends (h : SaveInv c) (hext : Extends c c') : SaveInv c' := by
  intro hsave
  rw [hext.dumpTasks, hext.dumpTotalPtrs]
  exact h (hext.isSave ▸ hsave)

theorem SaveInv.record (h : SaveInv c) (a : Action η) : SaveInv (c.record a) := h

theorem SaveInv.saveKvLayer {o : StoreOutcomes} (h : SaveInv c) (kv : KvLayer) :
    SaveInv (saveKvLayer cfg o c kv) := by
  unfold LayerWiseConnector.saveKvLayer dumpLayer
  split
  · exact h
  · dsimp only
    split_ifs with hmla hsave hok
    · exact h
    · intro hfalse
      exact absurd (hsave.symm.trans hfalse) (by simp)
    · intro hfalse
      exact absurd (hsave.symm.trans hfalse) (by simp)
    · intro hfalse
      exact h (by simpa using (Bool.or_eq_false_iff.mp hfalse).1)

theorem SaveInv.startLoadKv (h : SaveInv c) :
    SaveInv (startLoadKv cfg o (c.bindConnectorMetadata metadata)) := by
  unfold LayerWiseConnector.startLoadKv bindConnectorMetadata
  dsimp only
  split
  · refine SaveInv.of_extends ?_ (.foldl (submitRequest_extends o _ _ _) _ _)
    exact h
  · exact h

theorem SaveInv.runLayers {o : StoreOutcomes} (h : SaveInv c) (kvs : List KvLayer) :
    SaveInv (kvs.foldl (runLayer cfg o) c) := by
  induction kvs generalizing c with
  | nil => exact h
  | cons kv kvs ih =>
    have hwait := h.of_extends (waitForLayerLoad_extends cfg o.loads c kv)
    exact ih ((hwait.record _).saveKvLayer kv)

theorem SaveInv.waitForSave {o : StoreOutcomes} (h : SaveInv c) : Idle (waitForSave cfg o c) := by
  unfold LayerWiseConnector.waitForSave
  split
  · exact ⟨rfl, rfl, rfl⟩
  · rename_i hsave
    obtain ⟨htasks, hptrs⟩ := h (by simpa using hsave)
    exact ⟨by simpa using hsave, htasks, hptrs⟩

theorem Idle.runStep {e : Step η} (h : Idle c) : Idle (runStep cfg e c) := by
  have hsave : SaveInv c := fun _ => ⟨h.dumpTasks, h.dumpTotalPtrs⟩
  exact (hsave.startLoadKv.runLayers cfg.kvCaches).waitForSave

theorem idle_of_reachable (h : (layerWiseMachine cfg).Reachable c) : Idle c := by
  refine h.inv (I := Idle) ?_ ?_
  · rintro s rfl
    exact ⟨rfl, rfl, rfl⟩
  · intro s e s' hs _ hstep
    cases e with
    | step e =>
      obtain rfl := Option.some.inj hstep
      exact hs.runStep
    | getBlockIdsWithLoadErrors | clearConnectorMetadata =>
      obtain rfl := Option.some.inj hstep
      exact ⟨hs.isSave, hs.dumpTasks, hs.dumpTotalPtrs⟩

theorem AtLayer.loadedOrInvalid
    (hids : cfg.kvCaches.map KvLayer.layerId = List.range' first cfg.kvCaches.length)
    (h : AtLayer cfg metadata first cfg.kvCaches.length c) {acts : List (Action η)}
    (hacts : ∀ a ∈ acts, ∃ name t ok, a = .waitDump name t ok ∧ (name, t) ∈ c.dumpTasks)
    (htrace : c'.trace = c.trace ++ acts) (hinv : c'.invalidBlockIds = c.invalidBlockIds) :
    LoadedOrInvalid cfg metadata c' := by
  have hsub := h.submitting
  rw [if_neg (Nat.lt_irrefl _)] at hsub
  have hempty : c.loadTasks (first + cfg.kvCaches.length) = [] := by
    rw [List.eq_nil_iff_forall_not_mem]
    intro y hy
    obtain ⟨x, hx, -⟩ := hsub.tasks y hy
    simp at hx
  have hledger : LoadTrace c'.trace c.failureReqIds [] := by
    have hledger := hsub.ledger
    rw [hempty] at hledger
    rw [htrace]
    refine hledger.waitDumps fun a ha => ?_
    obtain ⟨name, t, ok, heq, hmem⟩ := hacts a ha
    exact ⟨name, t, ok, heq, h.dumps _ hmem⟩
  refine ⟨?_, hledger.none_after, ?_⟩
  · intro x hx
    by_cases hfail : x.1 ∈ c.failureReqIds
    · right
      rw [hinv]
      exact hsub.invalid x hx hfail
    · left
      intro l hl
      rw [WorkerConfig.Consecutive.layerIds_eq hids, List.mem_range'_1] at hl
      obtain ⟨t, ht⟩ := h.loaded x hx hfail (l - first) (by omega)
      rw [Nat.add_sub_cancel' hl.1] at ht
      refine ⟨t, ht.trans ?_⟩
      rw [htrace]
      exact List.sublist_append_left _ _
  · intro a ha req t hl ht
    have := hledger.once a ha req t hl ht
    simpa using this

end LayerWiseConnector

open LayerWiseConnector

/-- **Layer-wise loading is all or invalid.** In every step of every run, for any requests, layers and
failures: each request is loaded layer by layer, with the shard index and the pointers of the layer,
each load being waited for before the layer runs, or its blocks are in `_invalid_block_ids`; nothing
is submitted for a request after its first failure; and every load task is waited for exactly once. -/
theorem load_all_or_invalid {cfg : WorkerConfig η} (hids : cfg.Consecutive)
    {c : LayerWiseConnector η} (hc : (layerWiseMachine cfg).Reachable c) (e : Step η) :
    LoadedOrInvalid cfg e.metadata (c.runStep cfg e) := by
  obtain ⟨first, hids⟩ := hids
  have hstart : AtLayer cfg e.metadata first 0
      (startLoadKv cfg e.outcomes.loads (c.bindConnectorMetadata e.metadata)) :=
    AtLayer.startLoadKv hids e.nodup (idle_of_reachable hc).dumpTasks
  have hend := AtLayer.foldl (o := e.outcomes) hids e.nodup cfg.kvCaches [] _ (List.nil_append _) hstart
  unfold runStep waitForSave
  dsimp only
  split
  · obtain ⟨acts, heq, hacts⟩ := waitDumps_eq e.outcomes cfg.kvCaches (cfg.kvCaches.foldl
      (runLayer cfg e.outcomes)
      (startLoadKv cfg e.outcomes.loads (c.bindConnectorMetadata e.metadata)))
    exact hend.loadedOrInvalid hids hacts (by rw [heq]) (by rw [heq])
  · refine hend.loadedOrInvalid hids ?_ (List.append_nil _).symm rfl
    simp

/-- Two requests on the second of two ranks; the load of the second request fails at the second layer,
so its block is invalid and those of the first request are not. -/
theorem load_all_or_invalid_small :
    LoadedOrInvalid .small Step.small.metadata (start.runStep .small .small) ∧
      (start.runStep .small .small).invalidBlockIds = [7] :=
  ⟨load_all_or_invalid ⟨3, rfl⟩ (.init rfl) .small, by decide +kernel⟩

end UnifiedCache.Connector
