import UnifiedCache.Connector.Keys
import UnifiedCache.Connector.Proofs.LayerSaveProofs

/-!
# Blocks are loaded under the keys they are dumped under

On both connectors a worker uses one key for a block, `storeKey`, whether it loads or dumps it and
wherever the id is rewritten. Workers that share data share the key, and ranks that do not have
different ones as far as MD5 tells their inputs apart (`keys_agree`).
-/

open Lib

namespace UnifiedCache.Connector

variable {η : Type}

/-- The key of a block on a worker. -/
def WorkerConfig.storeKey (cfg : WorkerConfig η) (h : η) : η :=
  if cfg.tpRank % cfg.tpSize ≠ 0 ∧ cfg.isMla = false then cfg.requestHasher h else h

/-- The worker dumps. -/
def WorkerConfig.Dumps (cfg : WorkerConfig η) : Prop :=
  ¬(cfg.isMla = true ∧ cfg.tpRank % cfg.tpSize ≠ 0)

variable {cfg : WorkerConfig η} {metadata : ConnectorMetadata η}

/-- The first rank does not rewrite ids. -/
theorem WorkerConfig.storeKey_of_zero (h : cfg.tpRank % cfg.tpSize = 0) : cfg.storeKey = id :=
  funext fun _ => if_neg fun hc => hc.1 h

/-- With MLA no rank does. -/
theorem WorkerConfig.storeKey_of_mla (h : cfg.isMla = true) : cfg.storeKey = id :=
  funext fun _ => if_neg fun hc => by simp [h] at hc

/-- Any other rank hashes the ids again. -/
theorem WorkerConfig.storeKey_of_ne (h : cfg.tpRank % cfg.tpSize ≠ 0) (hmla : cfg.isMla = false) :
    cfg.storeKey = cfg.requestHasher := funext fun _ => if_pos ⟨h, hmla⟩

/-- A load takes the ids of a request as keys. -/
theorem WorkerConfig.loadKeys_eq (cfg : WorkerConfig η) (d : RequestDispatchMeta η) :
    cfg.loadKeys d = d.loadBlockIds.1.map cfg.storeKey := by
  unfold loadKeys rewriteLoads
  by_cases hrank : cfg.tpRank % cfg.tpSize = 0
  · rw [storeKey_of_zero hrank, List.map_id, if_neg fun hc => hc.1 hrank]
  · cases hmla : cfg.isMla with
    | true => simp [storeKey_of_mla hmla]
    | false => simp [storeKey_of_ne hrank hmla, hrank]

/-- At the first layer the ids of what is dumped become keys. -/
theorem WorkerConfig.rewriteDumpIds_zero (hdumps : cfg.Dumps) (ids : List η) :
    cfg.rewriteDumpIds 0 ids = ids.map cfg.storeKey := by
  unfold rewriteDumpIds
  by_cases hrank : cfg.tpRank % cfg.tpSize = 0
  · rw [storeKey_of_zero hrank, List.map_id, if_neg fun hc => hc.1 hrank]
  · have hmla : cfg.isMla = false := by
      rw [← Bool.not_eq_true]
      exact fun hmla => hdumps ⟨hmla, hrank⟩
    rw [storeKey_of_ne hrank hmla, if_pos ⟨hrank, rfl⟩]

/-- At the others they stay what they are. -/
theorem WorkerConfig.rewriteDumpIds_of_ne {n : Nat} (hn : n ≠ 0) (ids : List η) :
    cfg.rewriteDumpIds n ids = ids := if_neg fun h => hn h.2

/-! ## The layer-wise connector -/

namespace LayerWiseConnector

variable {c c' : LayerWiseConnector η} {o : StoreOutcomes}

/-- What a call of the store is given. -/
def KeyedAction (cfg : WorkerConfig η) (metadata : ConnectorMetadata η) : Action η → Prop
  | .loadData l req ids shards _ _ => shards = List.replicate ids.length l ∧
      ∃ x ∈ loads metadata, x.1 = req ∧ ids = x.2.loadBlockIds.1.map cfg.storeKey
  | .dumpData name ids shards _ _ => cfg.Dumps ∧ ids = (dumpIds metadata).map cfg.storeKey ∧
      ∃ kv ∈ cfg.kvCaches, kv.name = name ∧ shards = List.replicate ids.length kv.layerId
  | _ => True

/-- The calls of a step when the hooks of the layers `ran` have been called. -/
structure Keyed (cfg : WorkerConfig η) (metadata : ConnectorMetadata η) (ran : List KvLayer)
    (c : LayerWiseConnector η) : Prop where
  requestData : c.requestData = cfg.requestData metadata
  /-- The ids of what is dumped are rewritten once. -/
  entries : ∃ m, c.connectorMetadata = some m ∧ (cfg.Dumps → dumpEntries m =
    if ran = [] then dumpEntries metadata
    else (dumpEntries metadata).map fun y => (y.1, y.2.1.map cfg.storeKey, y.2.2))
  actions : ∀ a ∈ c.trace, KeyedAction cfg metadata a
  made : cfg.Dumps → dumpEntries metadata ≠ [] → ∀ kv ∈ ran, ∃ ids shards ptrs task,
    .dumpData kv.name ids shards ptrs task ∈ c.trace

variable {m : ConnectorMetadata η}

theorem submitRequest_actions {o : Outcomes} {l row : Nat}
    {data : ReqId × List η × List (List (List UInt64))} (hdata : data ∈ cfg.requestData metadata)
    (h : ∀ a ∈ c.trace, KeyedAction cfg metadata a) :
    ∀ a ∈ (submitRequest o m l row c data).trace, KeyedAction cfg metadata a := by
  obtain ⟨x, hx, rfl⟩ := List.mem_map.mp hdata
  have hkeyed : ∀ ptrs task, KeyedAction cfg metadata (.loadData l x.1 (cfg.loadKeys x.2)
      (List.replicate (cfg.loadKeys x.2).length l) ptrs task) :=
    fun _ _ => ⟨rfl, x, hx, rfl, cfg.loadKeys_eq x.2⟩
  unfold submitRequest
  dsimp only
  split_ifs
  · exact h
  all_goals
    intro a ha
    rcases List.mem_append.mp ha with ha | ha
    · exact h a ha
    · rw [List.mem_singleton.mp ha]
      exact hkeyed _ _

/-- What submitting the loads of a step adds to the trace. -/
theorem submitRequests_actions {o : Outcomes} {l row : Nat}
    {data : List (ReqId × List η × List (List (List UInt64)))}
    (hdata : ∀ d ∈ data, d ∈ cfg.requestData metadata)
    (h : ∀ a ∈ c.trace, KeyedAction cfg metadata a) :
    ∀ a ∈ (data.foldl (submitRequest o m l row) c).trace, KeyedAction cfg metadata a := by
  induction data generalizing c with
  | nil => exact h
  | cons d data ih =>
    refine ih (fun d' hd' => hdata d' (List.mem_cons_of_mem _ hd')) ?_
    exact submitRequest_actions (hdata d List.mem_cons_self) h

theorem waitRequests_actions {o : Outcomes} {l : Nat} (ys : List (ReqId × Task))
    (h : ∀ a ∈ c.trace, KeyedAction cfg metadata a) :
    ∀ a ∈ (ys.foldl (waitRequest o m l) c).trace, KeyedAction cfg metadata a := by
  induction ys generalizing c with
  | nil => exact h
  | cons y ys ih =>
    refine ih ?_
    unfold waitRequest
    split_ifs
    all_goals
      intro a ha
      rcases List.mem_append.mp ha with ha | ha
      · exact h a ha
      · rw [List.mem_singleton.mp ha]
        exact trivial

/-- What `wait_for_layer_load` adds to the trace. -/
theorem waitForLayerLoad_actions {o : Outcomes} {kv : KvLayer}
    (hdata : c.requestData = cfg.requestData metadata)
    (h : ∀ a ∈ c.trace, KeyedAction cfg metadata a) :
    ∀ a ∈ (waitForLayerLoad cfg o c kv).trace, KeyedAction cfg metadata a := by
  unfold waitForLayerLoad
  split
  · exact h
  · rename_i m _
    have hwait := waitRequests_actions (o := o) (m := m) (l := kv.layerId) (c.loadTasks kv.layerId) h
    have hext := Extends.foldl (waitRequest_extends o m kv.layerId) (c.loadTasks kv.layerId) c
    dsimp only
    split_ifs
    · refine submitRequests_actions (fun d hd => ?_) hwait
      rwa [hext.requestData, hdata] at hd
    · exact hwait
    · exact h

/-- What `save_kv_layer` adds to the trace. -/
theorem saveKvLayer_action (hm : c.connectorMetadata = some m) (kv : KvLayer) :
    ∀ a ∈ (saveKvLayer cfg o c kv).trace, a ∈ c.trace ∨ cfg.Dumps ∧ ∃ ptrs task,
      a = .dumpData kv.name
        ((dumpEntries m).flatMap fun y => cfg.rewriteDumpIds (kv.layerId - cfg.firstLayerId) y.2.1)
        (List.replicate ((dumpEntries m).flatMap fun y =>
          cfg.rewriteDumpIds (kv.layerId - cfg.firstLayerId) y.2.1).length kv.layerId) ptrs task := by
  have hids : ((dumpEntries (m.map fun x => (x.1, cfg.rewriteDumps (kv.layerId - cfg.firstLayerId)
      x.2))).flatMap fun x => x.2.1) =
      (dumpEntries m).flatMap fun y => cfg.rewriteDumpIds (kv.layerId - cfg.firstLayerId) y.2.1 := by
    rw [dumpEntries_rewriteDumps, List.flatMap_map]
  intro a ha
  unfold saveKvLayer dumpLayer at ha
  rw [hm] at ha
  dsimp only at ha
  rw [hids] at ha
  split_ifs at ha with hmla hsave hok
  · exact .inl ha
  · rcases List.mem_append.mp ha with ha | ha
    · exact .inl ha
    · exact .inr ⟨hmla, _, _, List.mem_singleton.mp ha⟩
  · rcases List.mem_append.mp ha with ha | ha
    · exact .inl ha
    · exact .inr ⟨hmla, _, _, List.mem_singleton.mp ha⟩
  · exact .inl ha

/-- The hook of a layer for saving; `ran` is empty exactly at the first layer. -/
theorem Keyed.saveKvLayer {ran : List KvLayer} {kv : KvLayer} (h : Keyed cfg metadata ran c)
    (hkv : kv ∈ cfg.kvCaches) (hlocal : ran = [] ↔ kv.layerId - cfg.firstLayerId = 0) :
    Keyed cfg metadata (ran ++ [kv]) (saveKvLayer cfg o c kv) := by
  obtain ⟨m, hm, hentries⟩ := h.entries
  have hrewritten : cfg.Dumps → ((dumpEntries m).map fun y =>
      (y.1, cfg.rewriteDumpIds (kv.layerId - cfg.firstLayerId) y.2.1, y.2.2)) =
      (dumpEntries metadata).map fun y => (y.1, y.2.1.map cfg.storeKey, y.2.2) := by
    intro hdumps
    rw [hentries hdumps]
    by_cases hran : ran = []
    · rw [if_pos hran, hlocal.mp hran]
      simp only [WorkerConfig.rewriteDumpIds_zero hdumps]
    · rw [if_neg hran]
      simp only [WorkerConfig.rewriteDumpIds_of_ne (mt hlocal.mpr hran)]
      exact List.map_id _
  refine ⟨(saveKvLayer_loads cfg o c kv).2.2.1.trans h.requestData, ?_, ?_, ?_⟩
  · refine ⟨_, saveKvLayer_connectorMetadata hm kv, fun hdumps => ?_⟩
    rw [if_neg hdumps, dumpEntries_rewriteDumps,
      if_neg (List.append_ne_nil_of_right_ne_nil _ (by simp))]
    exact hrewritten hdumps
  · intro a ha
    rcases saveKvLayer_action hm kv a ha with ha | ⟨hdumps, ptrs, task, rfl⟩
    · exact h.actions a ha
    · refine ⟨hdumps, ?_, kv, hkv, rfl, rfl⟩
      have hids := congrArg (fun l => l.flatMap fun y => y.2.1) (hrewritten hdumps)
      simp only [List.flatMap_map] at hids
      rw [hids, dumpIds, List.map_flatMap]
  · intro hdumps hne kv' hkv'
    have hsaves : cfg.Saves m := by
      refine ⟨hdumps, fun hnil => hne ?_⟩
      have := hrewritten hdumps
      rw [hnil] at this
      simpa using this.symm
    rcases List.mem_append.mp hkv' with hkv' | hkv'
    · obtain ⟨ids, shards, ptrs, task, hmem⟩ := h.made hdumps hne kv' hkv'
      refine ⟨ids, shards, ptrs, task, ?_⟩
      obtain ⟨-, _, _, _, ⟨-, htrace, -⟩ | ⟨-, htrace, -⟩⟩ := saveKvLayer_of_saves (o := o) hm hsaves kv
      · rw [htrace]
        exact List.mem_append_left _ hmem
      · rw [htrace]
        exact List.mem_append_left _ hmem
    · obtain rfl := List.mem_singleton.mp hkv'
      obtain ⟨-, ids, shards, ptrs, ⟨-, htrace, -⟩ | ⟨-, htrace, -⟩⟩ :=
        saveKvLayer_of_saves (o := o) hm hsaves kv'
      · rw [htrace]
        exact ⟨ids, shards, ptrs, _, List.mem_append_right _ (List.mem_singleton_self _)⟩
      · rw [htrace]
        exact ⟨ids, shards, ptrs, _, List.mem_append_right _ (List.mem_singleton_self _)⟩

/-- A layer hands keys to the store, and only keys. -/
theorem Keyed.runLayer {ran : List KvLayer} {kv : KvLayer} (h : Keyed cfg metadata ran c)
    (hkv : kv ∈ cfg.kvCaches) (hlocal : ran = [] ↔ kv.layerId - cfg.firstLayerId = 0) :
    Keyed cfg metadata (ran ++ [kv]) (runLayer cfg o c kv) := by
  have hext := waitForLayerLoad_extends cfg o.loads c kv
  refine Keyed.saveKvLayer ⟨hext.requestData.trans h.requestData, ?_, ?_, ?_⟩ hkv hlocal
  · obtain ⟨m, hm, hentries⟩ := h.entries
    exact ⟨m, hext.connectorMetadata.trans hm, hentries⟩
  · intro a ha
    rcases List.mem_append.mp ha with ha | ha
    · exact waitForLayerLoad_actions h.requestData h.actions a ha
    · rw [List.mem_singleton.mp ha]
      exact trivial
  · intro hdumps hne kv' hkv'
    obtain ⟨ids, shards, ptrs, task, hmem⟩ := h.made hdumps hne kv' hkv'
    exact ⟨ids, shards, ptrs, task, List.mem_append_left _ (hext.trace.subset hmem)⟩

/-- So do all layers. -/
theorem Keyed.foldl (hids : cfg.Consecutive) : ∀ (kvs ran : List KvLayer) (c : LayerWiseConnector η),
    ran ++ kvs = cfg.kvCaches → Keyed cfg metadata ran c →
      Keyed cfg metadata cfg.kvCaches (kvs.foldl (LayerWiseConnector.runLayer cfg o) c) := by
  obtain ⟨first, hids⟩ := hids
  intro kvs
  induction kvs with
  | nil =>
    intro ran c h hc
    rw [List.append_nil] at h
    exact h ▸ hc
  | cons kv kvs ih =>
    intro ran c h hc
    have hkv := WorkerConfig.Consecutive.layerId_of_append hids h
    have hlocal : ran = [] ↔ kv.layerId - cfg.firstLayerId = 0 := by
      rw [WorkerConfig.Consecutive.firstLayerId_eq hids, hkv, Nat.add_sub_cancel_left,
        List.length_eq_zero_iff]
    have hmem : kv ∈ cfg.kvCaches := by
      rw [← h]
      simp
    exact ih (ran ++ [kv]) _ (by rw [List.append_assoc]; exact h) (hc.runLayer hmem hlocal)

/-- What is dumped is not rewritten before the first layer. -/
theorem Keyed.startLoadKv (o : Outcomes) :
    Keyed cfg metadata [] (startLoadKv cfg o (c.bindConnectorMetadata metadata)) := by
  have hdata := cfg.requestData_rewriteLoads metadata
  have hentries : cfg.Dumps → dumpEntries (metadata.map fun x => (x.1, cfg.rewriteLoads x.2)) =
      if ([] : List KvLayer) = [] then dumpEntries metadata
      else (dumpEntries metadata).map fun y => (y.1, y.2.1.map cfg.storeKey, y.2.2) :=
    fun _ => (dumpEntries_rewriteLoads cfg metadata).trans (if_pos rfl).symm
  unfold LayerWiseConnector.startLoadKv
  dsimp only [bindConnectorMetadata]
  split
  · have hext := Extends.foldl (submitRequest_extends o
      (metadata.map fun x => (x.1, cfg.rewriteLoads x.2)) cfg.firstLayerId 0)
      (beginLoads cfg (metadata.map fun x => (x.1, cfg.rewriteLoads x.2))
        (c.bindConnectorMetadata metadata)).requestData
      (beginLoads cfg (metadata.map fun x => (x.1, cfg.rewriteLoads x.2))
        (c.bindConnectorMetadata metadata))
    refine ⟨hext.requestData.trans hdata, ⟨_, hext.connectorMetadata, hentries⟩, ?_, by simp⟩
    refine submitRequests_actions (fun d hd => hdata ▸ hd) ?_
    simp [beginLoads]
  · exact ⟨hdata, ⟨_, rfl, hentries⟩, by simp [beginLoads], by simp⟩

/-- The calls of a whole step. -/
theorem Keyed.runStep (hids : cfg.Consecutive) (e : Step η) :
    (∀ a ∈ (c.runStep cfg e).trace, KeyedAction cfg e.metadata a) ∧
      (cfg.Dumps → dumpEntries e.metadata ≠ [] → ∀ kv ∈ cfg.kvCaches, ∃ ids shards ptrs task,
        .dumpData kv.name ids shards ptrs task ∈ (c.runStep cfg e).trace) := by
  have hend : Keyed cfg e.metadata cfg.kvCaches
      (cfg.kvCaches.foldl (LayerWiseConnector.runLayer cfg e.outcomes)
        (LayerWiseConnector.startLoadKv cfg e.outcomes.loads (c.bindConnectorMetadata e.metadata))) :=
    Keyed.foldl hids cfg.kvCaches [] _ (List.nil_append _) (.startLoadKv _)
  unfold LayerWiseConnector.runStep waitForSave
  dsimp only
  split
  · rw [waitDumps_waitActs]
    refine ⟨fun a ha => ?_, fun hdumps hne kv hkv => ?_⟩
    · rcases List.mem_append.mp ha with ha | ha
      · exact hend.actions a ha
      · obtain ⟨y, -, ok, rfl⟩ := mem_waitActs ha
        exact trivial
    · obtain ⟨ids, shards, ptrs, task, hmem⟩ := hend.made hdumps hne kv hkv
      exact ⟨ids, shards, ptrs, task, List.mem_append_left _ hmem⟩
  · exact ⟨hend.actions, hend.made⟩

end LayerWiseConnector

/-! ## The direct connector -/

namespace DirectConnector

variable {c : DirectConnector η} {e : LayerWiseConnector.Step η}

theorem rewriteLoads_eq (hrank : cfg.tpRank % cfg.tpSize = cfg.tpRank) (d : RequestDispatchMeta η) :
    rewriteLoads cfg d = cfg.rewriteLoads d := by
  rw [rewriteLoads, WorkerConfig.rewriteLoads, hrank]

theorem rewriteDumps_eq (hrank : cfg.tpRank % cfg.tpSize = cfg.tpRank) (d : RequestDispatchMeta η) :
    rewriteDumps cfg d = cfg.rewriteDumps 0 d := by
  rw [rewriteDumps, WorkerConfig.rewriteDumps, hrank]
  simp

/-- The calls of a step that load. -/
theorem runStep_loadCalls (hrank : cfg.tpRank % cfg.tpSize = cfg.tpRank) :
    (runStep cfg e c).loadCalls = (loads e.metadata).map fun x =>
      (x.1, storeCall cfg (x.2.loadBlockIds.1.map cfg.storeKey) x.2.loadBlockIds.2) := by
  have hloads : (runStep cfg e c).loadCalls =
      (loads (e.metadata.map fun x => (x.1, rewriteLoads cfg x.2))).map fun x =>
        (x.1, storeCall cfg x.2.loadBlockIds.1 x.2.loadBlockIds.2) := by
    unfold runStep waitForSave startLoadKv bindConnectorMetadata
    dsimp only
    split_ifs <;> exact List.nil_append _
  rw [hloads]
  simp only [rewriteLoads_eq hrank, cfg.loads_rewriteLoads, List.map_map]
  refine List.map_congr_left fun x _ => ?_
  simp only [Function.comp_apply, WorkerConfig.rewriteLoads_blocks, ← cfg.loadKeys_eq]
  rfl

/-- The call of a step that dumps. -/
theorem runStep_dumpCalls (hrank : cfg.tpRank % cfg.tpSize = cfg.tpRank) {call : StoreCall η} :
    call ∈ (runStep cfg e c).dumpCalls ↔ cfg.Dumps ∧ dumpEntries e.metadata ≠ [] ∧
      call = storeCall cfg ((dumpIds e.metadata).map cfg.storeKey)
        ((dumpEntries e.metadata).flatMap fun y => y.2.2) := by
  have hentries : dumpEntries ((e.metadata.map fun x => (x.1, rewriteLoads cfg x.2)).map fun x =>
      (x.1, rewriteDumps cfg x.2)) =
      (dumpEntries e.metadata).map fun y => (y.1, cfg.rewriteDumpIds 0 y.2.1, y.2.2) := by
    simp only [rewriteLoads_eq hrank, rewriteDumps_eq hrank]
    rw [dumpEntries_rewriteDumps, dumpEntries_rewriteLoads]
  have hids : cfg.Dumps → ((dumpEntries e.metadata).flatMap fun y => cfg.rewriteDumpIds 0 y.2.1) =
      (dumpIds e.metadata).map cfg.storeKey := by
    intro hdumps
    rw [dumpIds, List.map_flatMap]
    simp only [WorkerConfig.rewriteDumpIds_zero hdumps]
  unfold runStep waitForSave startLoadKv bindConnectorMetadata
  dsimp only
  rw [hentries, List.isEmpty_map, List.flatMap_map, List.flatMap_map]
  split_ifs with hmla hempty
  · have : ¬ cfg.Dumps := fun hdumps => hdumps (by rwa [hrank])
    simp [this]
  · have : dumpEntries e.metadata = [] := by simpa using hempty
    simp [this]
  · have hdumps : cfg.Dumps := by rwa [WorkerConfig.Dumps, hrank]
    have hne : dumpEntries e.metadata ≠ [] := by simpa using hempty
    rw [hids hdumps]
    simp [hdumps, hne]

end DirectConnector

/-! ## The hasher -/

/-- A number in decimal, encoded. -/
def decimalBytes (n : Nat) : List UInt8 := n.repr.toByteArray.data.toList

/-- Only the end of what is hashed depends on the rank. -/
theorem ModelConfig.metaBytes_eq (mc : ModelConfig) :
    ∃ pre, ∀ r, mc.metaBytes r = pre ++ decimalBytes r := by
  refine ⟨(s!"{mc.model}:{mc.tpSize}:{mc.dtype}:").toUTF8.data.toList, fun r => ?_⟩
  simp [metaBytes, decimalBytes, String.toByteArray_append, ByteArray.data_append]

/-- Two numbers are printed differently. -/
theorem decimalBytes_injective {m n : Nat} (h : decimalBytes m = decimalBytes n) : m = n := by
  have hbytes : m.repr.toByteArray = n.repr.toByteArray := ByteArray.ext (Array.toList_inj.mp h)
  have hdigits : Nat.toDigits 10 m = Nat.toDigits 10 n := by
    rw [← Nat.toList_repr, ← Nat.toList_repr, String.toByteArray_inj.mp hbytes]
  rw [← Nat.ofDigitChars_ten_toDigits (n := m), hdigits, Nat.ofDigitChars_ten_toDigits]

/-- The digits of a positive number do not begin with zero. -/
theorem toDigits_head {n : Nat} (hn : 0 < n) :
    ∃ d l, 0 < d ∧ d < 10 ∧ Nat.toDigits 10 n = d.digitChar :: l := by
  induction n using Nat.strong_induction_on with
  | _ n ih =>
    by_cases hlt : n < 10
    · exact ⟨n, [], hn, hlt, Nat.toDigits_of_lt_base hlt⟩
    · obtain ⟨d, l, hd, hd', heq⟩ := ih (n / 10) (by omega) (by omega)
      refine ⟨d, l ++ [(n % 10).digitChar], hd, hd', ?_⟩
      rw [Nat.toDigits_of_base_le (by decide) (by omega), heq]
      rfl

theorem decimalBytes_zero : decimalBytes 0 = [48] := by decide +kernel

/-- The encoded digits, of which only zero has the code 48. -/
theorem utf8Encode_digitChar : ∀ d < 10, 0 < d →
    [Nat.digitChar d].utf8Encode.data.toList = [UInt8.ofNat (48 + d)] ∧ UInt8.ofNat (48 + d) ≠ 48 := by
  decide +kernel

theorem decimalBytes_head {n : Nat} (hn : 0 < n) : ∃ b l, b ≠ 48 ∧ decimalBytes n = b :: l := by
  obtain ⟨d, l, hd, hd', heq⟩ := toDigits_head hn
  obtain ⟨hencoded, hne⟩ := utf8Encode_digitChar d hd' hd
  refine ⟨_, l.utf8Encode.data.toList, hne, ?_⟩
  rw [decimalBytes, Nat.repr_eq_ofList_toDigits, heq, String.toByteArray_ofList, List.utf8Encode_cons,
    ByteArray.data_append, Array.toList_append, hencoded]
  rfl

/-! ## Keys -/

/-- The shard index a connector uses for a layer. -/
def ConnectorKind.shardIndex (l : Nat) : ConnectorKind → Nat
  | .direct => 0
  | .layerWise => l

/-- The key at the place of a block. -/
theorem key_eq_of_getElem? {ids : List η} {n i l : Nat} {h : η} {key : η × Nat}
    (hh : ids[i]? = some h) (hid : (ids.map cfg.storeKey)[i]? = some key.1)
    (hshard : (List.replicate n l)[i]? = some key.2) : key = (cfg.storeKey h, l) := by
  rw [List.getElem?_map, hh] at hid
  exact Prod.ext (Option.some.inj hid).symm (List.eq_of_mem_replicate (List.mem_of_getElem? hshard))

section Workers

variable {mc : ModelConfig} {kind : ConnectorKind} {a b : WorkerConfig (List UInt8)}
  {e e' : LayerWiseConnector.Step (List UInt8)} {h : List UInt8} {l l' : Nat}
  {key key' : List UInt8 × Nat}

/-- A worker dumps exactly what it owns. -/
theorem ModelConfig.IsWorker.dumps_iff (ha : mc.IsWorker kind a) : a.Dumps ↔ mc.Owns a := by
  rw [WorkerConfig.Dumps, Owns, ha.tpSize, ha.isMla, not_and, not_not]

/-- The ranks of the direct connector. -/
theorem ModelConfig.IsWorker.rank_mod (ha : mc.IsWorker .direct a) :
    a.tpRank % a.tpSize = a.tpRank := by
  rw [ha.tpSize]
  exact Nat.mod_eq_of_lt (ha.rank rfl)

/-- The key of a dump. -/
theorem DumpsUnder.key_eq (hd : DumpsUnder kind a e h l key) (ha : mc.IsWorker kind a) :
    a.Dumps ∧ key = (a.storeKey h, kind.shardIndex l) := by
  cases kind with
  | direct =>
    obtain ⟨c, call, hcall, -, i, hh, hid, hshard⟩ := hd
    obtain ⟨hdumps, -, rfl⟩ := (DirectConnector.runStep_dumpCalls ha.rank_mod).mp hcall
    exact ⟨hdumps, key_eq_of_getElem? hh hid hshard⟩
  | layerWise =>
    obtain ⟨c, -, kv, hkv, rfl, ids, shards, ptrs, task, hmem, i, hh, hid, hshard⟩ := hd
    obtain ⟨hdumps, rfl, kv', hkv', hname, rfl⟩ :=
      (LayerWiseConnector.Keyed.runStep (ha.layers rfl) e).1 _ hmem
    obtain rfl := List.inj_on_of_nodup_map a.names_nodup hkv' hkv hname
    exact ⟨hdumps, key_eq_of_getElem? hh hid hshard⟩

/-- The key of a load. -/
theorem LoadsUnder.key_eq (hl : LoadsUnder kind a e h l key) (ha : mc.IsWorker kind a) :
    key = (a.storeKey h, kind.shardIndex l) := by
  cases kind with
  | direct =>
    obtain ⟨c, x, hx, call, hcall, -, i, hh, hid, hshard⟩ := hl
    rw [DirectConnector.runStep_loadCalls ha.rank_mod] at hcall
    obtain ⟨y, hy, heq⟩ := List.mem_map.mp hcall
    obtain ⟨hreq, rfl⟩ := Prod.mk.inj heq
    obtain rfl := List.inj_on_of_nodup_map e.nodup (mem_of_loads hy) hx hreq
    exact key_eq_of_getElem? hh hid hshard
  | layerWise =>
    obtain ⟨c, -, x, hx, ids, shards, ptrs, task, hmem, i, hh, hid, hshard⟩ := hl
    obtain ⟨rfl, y, hy, hreq, rfl⟩ := (LayerWiseConnector.Keyed.runStep (ha.layers rfl) e).1 _ hmem
    obtain rfl := List.inj_on_of_nodup_map e.nodup (mem_of_loads hy) hx hreq
    exact key_eq_of_getElem? hh hid hshard

/-- Every block of the step is dumped. -/
theorem DumpsUnder.of_dumps (ha : mc.IsWorker kind a) (hdumps : a.Dumps)
    (hh : h ∈ dumpIds e.metadata) (hl : l ∈ a.kvCaches.map KvLayer.layerId) :
    ∃ key, DumpsUnder kind a e h l key := by
  obtain ⟨kv, hkv, rfl⟩ := List.mem_map.mp hl
  obtain ⟨i, hi⟩ := List.mem_iff_getElem?.mp hh
  have hne : dumpEntries e.metadata ≠ [] := by
    intro hnil
    simp [dumpIds, hnil] at hh
  have hlt : i < (dumpIds e.metadata).length := (List.getElem?_eq_some_iff.mp hi).1
  have hid : ((dumpIds e.metadata).map a.storeKey)[i]? = some (a.storeKey h) := by
    rw [List.getElem?_map, hi]
    rfl
  have hshard : ∀ s : Nat,
      (List.replicate ((dumpIds e.metadata).map a.storeKey).length s)[i]? = some s := by
    intro s
    rw [List.getElem?_replicate, if_pos (by rwa [List.length_map])]
  cases kind with
  | direct =>
    refine ⟨(a.storeKey h, 0), .start, _, (DirectConnector.runStep_dumpCalls ha.rank_mod).mpr
      ⟨hdumps, hne, rfl⟩, ⟨kv, hkv, rfl⟩, i, hi, hid, hshard 0⟩
  | layerWise =>
    obtain ⟨hactions, hmade⟩ :=
      LayerWiseConnector.Keyed.runStep (c := .start) (ha.layers rfl) e
    obtain ⟨ids, shards, ptrs, task, hmem⟩ := hmade hdumps hne kv hkv
    obtain ⟨-, rfl, kv', hkv', hname, rfl⟩ := hactions _ hmem
    obtain rfl := List.inj_on_of_nodup_map a.names_nodup hkv' hkv hname
    exact ⟨(a.storeKey h, kv'.layerId), .start, .init rfl, kv', hkv, rfl, _, _, ptrs, task, hmem, i,
      hi, hid, hshard _⟩

end Workers

/-- The key of a scheduler's id on a rank. -/
def ModelConfig.rankKey (mc : ModelConfig) (r : Nat) (h : List UInt8) : List UInt8 :=
  if r = 0 then h else mc.requestHasher r h

theorem ModelConfig.IsWorker.storeKey_eq {mc : ModelConfig} {kind : ConnectorKind}
    {a : WorkerConfig (List UInt8)} (ha : mc.IsWorker kind a) (h : List UInt8) :
    a.storeKey h = if mc.isMla then h else mc.rankKey (a.tpRank % mc.tpSize) h := by
  rw [← ha.isMla, rankKey]
  cases hmla : a.isMla with
  | true => simp [WorkerConfig.storeKey_of_mla hmla]
  | false =>
    by_cases hrank : a.tpRank % mc.tpSize = 0
    · rw [WorkerConfig.storeKey_of_zero (by rwa [ha.tpSize])]
      simp [hrank]
    · rw [WorkerConfig.storeKey_of_ne (by rwa [ha.tpSize]) hmla, ha.requestHasher]
      simp [hrank]

section Distinct

variable {mc : ModelConfig} {pickles : Set (List UInt8)} {p : List UInt8} {r r' : Nat}

/-- What the scheduler hashes differs from what a worker hashes. -/
theorem ModelConfig.metaBytes_zero_ne (hr : 0 < r) (p h : List UInt8) :
    mc.metaBytes 0 ++ p ≠ mc.metaBytes r ++ h := by
  intro heq
  obtain ⟨pre, hpre⟩ := mc.metaBytes_eq
  obtain ⟨b, l, hb, hbytes⟩ := decimalBytes_head hr
  rw [hpre, hpre, decimalBytes_zero, hbytes, List.append_assoc, List.append_assoc,
    List.append_cancel_left_eq] at heq
  exact hb (List.cons.inj heq).1.symm

/-- What two workers hash for one id differs. -/
theorem ModelConfig.metaBytes_ne (hr : r ≠ r') (h : List UInt8) :
    mc.metaBytes r ++ h ≠ mc.metaBytes r' ++ h := by
  intro heq
  obtain ⟨pre, hpre⟩ := mc.metaBytes_eq
  rw [List.append_cancel_right_eq, hpre, hpre, List.append_cancel_left_eq] at heq
  exact hr (decimalBytes_injective heq)

theorem ModelConfig.rankKey_zero_ne (hmd5 : Set.InjOn mc.md5 (mc.hashed pickles)) (hp : p ∈ pickles)
    (hr : 0 < r) (hlt : r < mc.tpSize) :
    mc.rankKey 0 (mc.requestHasher 0 p) ≠ mc.rankKey r (mc.requestHasher 0 p) := by
  rw [rankKey, rankKey, if_pos rfl, if_neg (Nat.pos_iff_ne_zero.mp hr)]
  intro heq
  exact mc.metaBytes_zero_ne hr _ _
    (hmd5 ⟨p, hp, .inl rfl⟩ ⟨p, hp, .inr ⟨r, hr, hlt, rfl⟩⟩ heq)

/-- As far as MD5 is injective on what it is applied to, two ranks have different keys for one id.
-/
theorem ModelConfig.rankKey_ne (hmd5 : Set.InjOn mc.md5 (mc.hashed pickles)) (hp : p ∈ pickles)
    (hne : r ≠ r') (hr : r < mc.tpSize) (hr' : r' < mc.tpSize) :
    mc.rankKey r (mc.requestHasher 0 p) ≠ mc.rankKey r' (mc.requestHasher 0 p) := by
  rcases Nat.eq_zero_or_pos r with rfl | hpos
  · exact mc.rankKey_zero_ne hmd5 hp (Nat.pos_of_ne_zero (Ne.symm hne)) hr'
  · rcases Nat.eq_zero_or_pos r' with rfl | hpos'
    · exact (mc.rankKey_zero_ne hmd5 hp hpos hr).symm
    · rw [rankKey, rankKey, if_neg (Nat.pos_iff_ne_zero.mp hpos), if_neg (Nat.pos_iff_ne_zero.mp hpos')]
      intro heq
      exact mc.metaBytes_ne hne _ (hmd5 ⟨p, hp, .inr ⟨r, hpos, hr, rfl⟩⟩
        ⟨p, hp, .inr ⟨r', hpos', hr', rfl⟩⟩ heq)

end Distinct

/-- **Blocks are loaded under the keys they are dumped under**, on both connectors, for any number of
ranks, with MLA or without, for any layers and in every step; and, as far as MD5 is injective on what
it is applied to, ranks with different data use different keys. -/
theorem keys_agree {mc : ModelConfig} (htp : 0 < mc.tpSize) (kind : ConnectorKind)
    {pickles : Set (List UInt8)} (hmd5 : Set.InjOn mc.md5 (mc.hashed pickles)) :
    KeysAgree mc kind pickles where
  dumped own e h l hown hh hl := by
    constructor
    · exact fun howns => DumpsUnder.of_dumps hown (hown.dumps_iff.mpr howns) hh hl
    · rintro ⟨key, hkey⟩
      exact hown.dumps_iff.mp (hkey.key_eq hown).1
  agree own need e e' h l key key' hown hneed hneeds hdump hload := by
    rw [(hdump.key_eq hown).2, hload.key_eq hneed, hown.storeKey_eq, hneed.storeKey_eq]
    rw [ModelConfig.Needs] at hneeds
    cases hmla : mc.isMla with
    | true => rfl
    | false =>
      rw [hmla, if_neg (by simp)] at hneeds
      rw [hneeds]
  distinct a b e e' p l l' key key' hmla ha hb hne hp hkey hkey' := by
    have hkey : key.1 = a.storeKey (mc.requestHasher 0 p) := by
      rcases hkey with hkey | hkey
      · rw [(hkey.key_eq ha).2]
      · rw [hkey.key_eq ha]
    have hkey' : key'.1 = b.storeKey (mc.requestHasher 0 p) := by
      rcases hkey' with hkey' | hkey'
      · rw [(hkey'.key_eq hb).2]
      · rw [hkey'.key_eq hb]
    rw [hkey, hkey', ha.storeKey_eq, hb.storeKey_eq, hmla]
    exact mc.rankKey_ne hmd5 hp hne (Nat.mod_lt _ htp) (Nat.mod_lt _ htp)

theorem ModelConfig.small_isWorker (kind : ConnectorKind) :
    ModelConfig.small.IsWorker kind ModelConfig.smallWorker :=
  ⟨rfl, rfl, rfl, fun _ => by decide, fun _ => ⟨3, rfl⟩⟩

theorem ModelConfig.small_loads (kind : ConnectorKind) :
    ∃ key, LoadsUnder kind ModelConfig.smallWorker ModelConfig.smallStep sampleHash 4 key := by
  cases kind with
  | direct =>
    refine ⟨(sampleKey, 0), .start, (0, ⟨([sampleHash], [5]), ([], [])⟩), List.mem_cons_self, ?_⟩
    simp only [DirectConnector.runStep_loadCalls (ModelConfig.small_isWorker .direct).rank_mod]
    exact ⟨_, List.mem_cons_self, ⟨_, List.mem_cons_of_mem _ List.mem_cons_self, rfl⟩, 0, rfl,
      by decide +kernel, rfl⟩
  | layerWise =>
    have hload : ModelConfig.smallWorker.loadAction (0, ⟨([sampleHash], [5]), ([], [])⟩) 4 (some 2) ∈
        (LayerWiseConnector.start.runStep ModelConfig.smallWorker ModelConfig.smallStep).trace := by
      decide +kernel
    exact ⟨(sampleKey, 4), .start, .init rfl, _, List.mem_cons_self, _, _, _, _, hload, 0, rfl,
      by decide +kernel, rfl⟩

/-- The two inputs of MD5 on the sample have different hashes. -/
theorem ModelConfig.small_injOn :
    Set.InjOn ModelConfig.small.md5 (ModelConfig.small.hashed {samplePickle}) := by
  have hfirst : ModelConfig.small.md5 (ModelConfig.small.metaBytes 0 ++ samplePickle) = sampleHash := by
    decide +kernel
  have hsecond : ModelConfig.small.md5 (ModelConfig.small.metaBytes 1 ++ sampleHash) = sampleKey := by
    decide +kernel
  have hcases : ∀ b ∈ ModelConfig.small.hashed {samplePickle},
      b = ModelConfig.small.metaBytes 0 ++ samplePickle ∨
        b = ModelConfig.small.metaBytes 1 ++ sampleHash := by
    rintro b ⟨p, rfl, rfl | ⟨r, hpos, hlt, rfl⟩⟩
    · exact .inl rfl
    · obtain rfl : r = 1 := by
        have : r < 2 := hlt
        omega
      right
      rw [requestHasher, hfirst]
  have hne : sampleHash ≠ sampleKey := by decide
  intro a ha b hb heq
  rcases hcases a ha with rfl | rfl <;> rcases hcases b hb with rfl | rfl
  · rfl
  · rw [hfirst, hsecond] at heq
    exact absurd heq hne
  · rw [hfirst, hsecond] at heq
    exact absurd heq.symm hne
  · rfl

theorem ModelConfig.small_keys {kind : ConnectorKind} (hkeys : KeysAgree .small kind {samplePickle}) :
    ∃ key, DumpsUnder kind ModelConfig.smallWorker ModelConfig.smallStep sampleHash 4 key ∧
      LoadsUnder kind ModelConfig.smallWorker ModelConfig.smallStep sampleHash 4 key := by
  have hworker := ModelConfig.small_isWorker kind
  obtain ⟨key, hdump⟩ := (hkeys.dumped _ ModelConfig.smallStep sampleHash 4 hworker (by decide)
    (by decide)).mp fun h => by simp [ModelConfig.small] at h
  obtain ⟨key', hload⟩ := ModelConfig.small_loads kind
  obtain rfl := hkeys.agree _ _ _ _ sampleHash 4 key key' hworker hworker rfl hdump hload
  exact ⟨key, hdump, hload⟩

/-- On two ranks; with either connector the second one loads the sample under the key it dumps it under. -/
theorem keys_agree_small :
    (∃ key, DumpsUnder .layerWise ModelConfig.smallWorker ModelConfig.smallStep sampleHash 4 key ∧
      LoadsUnder .layerWise ModelConfig.smallWorker ModelConfig.smallStep sampleHash 4 key) ∧
    ∃ key, DumpsUnder .direct ModelConfig.smallWorker ModelConfig.smallStep sampleHash 4 key ∧
      LoadsUnder .direct ModelConfig.smallWorker ModelConfig.smallStep sampleHash 4 key :=
  ⟨ModelConfig.small_keys (keys_agree Nat.two_pos .layerWise ModelConfig.small_injOn),
    ModelConfig.small_keys (keys_agree Nat.two_pos .direct ModelConfig.small_injOn)⟩

end UnifiedCache.Connector
