import UnifiedCache.Connector.Worker
import UnifiedCache.Connector.Proofs.DispatchProofs

/-!
# Proofs: the worker

`Plan` says, of some requests, where the keys and values of all their tokens come from in a step: they
are on the GPU already, are loaded by a load that does not fail, or are computed in this step, by the
request itself or by another one of them; and no other request writes there. Under a plan both
connectors leave all these tokens valid, layer by layer, and every call of `dump_data` finds them so
in the layers it covers (`WorkerOk`).
-/

open Function

namespace UnifiedCache.Connector

variable {η : Type} {cfg : Config η} {kind : ConnectorKind} {layers l : Nat}
  {metadata : ConnectorMetadata η} {batch : List Sequence} {o : Outcomes} {g₀ : Gpu η}
  {g g' : Layer η} {w : Worker η} {good : Sequence → Prop} {q r : Sequence} {p : Nat}

/-! ## Plans -/

/-- No other request of the forward pass writes to the cell of a token. -/
def Exclusive (cfg : Config η) (batch : List Sequence) (r : Sequence) (p : Nat) : Prop :=
  ∀ q ∈ batch, q.id ≠ r.id → ∀ v, r.table[p / cfg.blockSize]? = some v →
    q.position cfg.blockSize v (p % cfg.blockSize) = none

/-- Where the keys and values of a token come from. -/
inductive Sourced (kind : ConnectorKind) (cfg : Config η) (layers : Nat)
    (metadata : ConnectorMetadata η) (batch : List Sequence) (o : Outcomes) (g₀ : Gpu η)
    (r : Sequence) (p : Nat) : Prop where
  /-- They are computed in this step. -/
  | own (hr : r ∈ batch) (hstart : r.start ≤ p) (v : VllmBlock)
      (hv : r.table[p / cfg.blockSize]? = some v)
  /-- They have been there before it. -/
  | kept (hstart : p < r.start) (v : VllmBlock) (hv : r.table[p / cfg.blockSize]? = some v)
      (hload : ∀ x ∈ loads metadata, v ∉ x.2.loadBlockIds.2)
      (hvalid : ∀ l < layers, (g₀ l).Valid cfg r.tokens r.table p)
  /-- They are loaded in this step. -/
  | loaded (hstart : p < r.start) (v : VllmBlock) (hv : r.table[p / cfg.blockSize]? = some v)
      (x : ReqId × RequestDispatchMeta η) (hx : x ∈ loads metadata) (hok : ¬Fails kind layers o x.1)
      (hpair : (blockHash cfg r.tokens (p / cfg.blockSize), v) ∈ x.2.loadPairs)
      (hfull : (p / cfg.blockSize + 1) * cfg.blockSize ≤ r.tokens.length)

theorem Sourced.block (h : Sourced kind cfg layers metadata batch o g₀ r p) :
    ∃ v, r.table[p / cfg.blockSize]? = some v := by
  cases h with
  | own _ _ v hv => exact ⟨v, hv⟩
  | kept _ v hv => exact ⟨v, hv⟩
  | loaded _ v hv => exact ⟨v, hv⟩

/-- Every token of a good request up to the end of the step has a source, maybe that of a request
that shares the block. -/
structure Plan (kind : ConnectorKind) (cfg : Config η) (layers : Nat)
    (metadata : ConnectorMetadata η) (batch : List Sequence) (o : Outcomes) (g₀ : Gpu η)
    (good : Sequence → Prop) : Prop where
  pairs_unique : ∀ x ∈ loads metadata, ∀ y ∈ loads metadata, ∀ a ∈ x.2.loadPairs,
    ∀ b ∈ y.2.loadPairs, a.2 = b.2 → a = b
  nodup : ∀ r, good r → r.table.Nodup
  start_le : ∀ r, good r → r.start ≤ r.stop
  row : ∀ r, good r → ∀ q ∈ batch, q.id = r.id → q = r
  support : ∀ r, good r → ∀ p < r.stop, ∃ q, good q ∧ p < q.stop ∧
    q.table[p / cfg.blockSize]? = r.table[p / cfg.blockSize]? ∧
    q.tokens.take ((p / cfg.blockSize + 1) * cfg.blockSize) =
      r.tokens.take ((p / cfg.blockSize + 1) * cfg.blockSize) ∧
    Sourced kind cfg layers metadata batch o g₀ q p ∧ Exclusive cfg batch q p

/-- All tokens of the good requests are valid in a layer. -/
def GoodLayer (cfg : Config η) (good : Sequence → Prop) (g : Layer η) : Prop :=
  ∀ r, good r → ∀ p < r.stop, g.Valid cfg r.tokens r.table p

/-! ## Cells -/

theorem Cell.Valid.of_take {c : Cell η} {tokens tokens' : List Token}
    (h : c.Valid cfg tokens p)
    (htake : tokens.take ((p / cfg.blockSize + 1) * cfg.blockSize) =
      tokens'.take ((p / cfg.blockSize + 1) * cfg.blockSize)) (hcp : cfg.cpWorldSize = 1) :
    c.Valid cfg tokens' p := by
  have hp : p + 1 ≤ (p / cfg.blockSize + 1) * cfg.blockSize := by
    have := Nat.lt_div_mul_add (a := p) cfg.blockSize_pos
    rw [Nat.add_mul]
    omega
  cases c with
  | garbage => exact h
  | computed read =>
    have h' : read = tokens.take (p + 1) := h
    have heq := congrArg (List.take (p + 1)) htake
    rw [List.take_take, List.take_take, Nat.min_eq_left hp] at heq
    exact h'.trans heq
  | loaded hash slot =>
    obtain ⟨hhash, hfull, hslot⟩ := h
    have hlength := congrArg List.length htake
    rw [List.length_take, List.length_take] at hlength
    have hfull' : (p / cfg.blockSize + 1) * cfg.blockSize ≤ tokens'.length := by omega
    refine ⟨?_, hfull', hslot⟩
    have hbs := Config.blockSize_eq hcp
    have htokens : ∀ t : List Token, (p / cfg.blockSize + 1) * cfg.blockSize ≤ t.length →
        blockHash cfg t (p / cfg.blockSize) = blockHash cfg
          (t.take ((p / cfg.blockSize + 1) * cfg.blockSize)) (p / cfg.blockSize) := by
      intro t ht
      conv_lhs => rw [← List.take_append_drop ((p / cfg.blockSize + 1) * cfg.blockSize) t]
      refine blockHash_append cfg _ _ ?_
      rw [List.length_take, ← hbs]
      omega
    rw [hhash, htokens tokens hfull, htokens tokens' hfull', htake]

variable {v : VllmBlock}

theorem idxOf?_of_nodup {table : List VllmBlock} {k : Nat} (h : table.Nodup)
    (hk : table[k]? = some v) : table.idxOf? v = some k := by
  obtain ⟨hlt, hget⟩ := List.getElem?_eq_some_iff.mp hk
  rw [List.idxOf?_eq_some_iff]
  refine ⟨hlt, hget, ?_⟩
  intro j hj heq
  have := (List.Nodup.getElem_inj_iff h).mp (heq.trans hget.symm)
  omega

theorem Sequence.of_position {bs i : Nat} (h : q.position bs v i = some p) :
    ∃ k, q.table[k]? = some v ∧ i < bs ∧ p = k * bs + i ∧ q.start ≤ p ∧ p < q.stop := by
  unfold Sequence.position at h
  rw [Option.bind_eq_some_iff] at h
  obtain ⟨k, hk, h⟩ := h
  split_ifs at h with hguard
  cases h
  obtain ⟨hlt, hget, -⟩ := List.idxOf?_eq_some_iff.mp hk
  exact ⟨k, List.getElem?_eq_some_iff.mpr ⟨hlt, hget⟩, hguard.1, rfl, hguard.2.1, hguard.2.2⟩

theorem Sequence.position_eq {bs k i : Nat} (h : q.table.Nodup) (hv : q.table[k]? = some v)
    (hi : i < bs) : q.position bs v i =
      if q.start ≤ k * bs + i ∧ k * bs + i < q.stop then some (k * bs + i) else none := by
  unfold Sequence.position
  rw [idxOf?_of_nodup h hv]
  simp only [Option.bind_some, hi, true_and]

theorem Config.block_slot (cfg : Config η) (p : Nat) :
    p / cfg.blockSize * cfg.blockSize + p % cfg.blockSize = p := by
  rw [Nat.mul_comm]
  exact Nat.div_add_mod p cfg.blockSize

/-! ## Layers -/

/-- Where no load goes, a layer is as it was. -/
def Untouched (metadata : ConnectorMetadata η) (g g' : Layer η) : Prop :=
  ∀ v, (∀ x ∈ loads metadata, v ∉ x.2.loadBlockIds.2) → ∀ i, g' v i = g v i

/-- The loads of a layer are over. -/
structure Arrived (kind : ConnectorKind) (layers : Nat) (metadata : ConnectorMetadata η)
    (o : Outcomes) (g g' : Layer η) : Prop where
  untouched : Untouched metadata g g'
  loaded : ∀ x ∈ loads metadata, ¬Fails kind layers o x.1 → ∀ pair ∈ x.2.loadPairs, ∀ i,
    g' pair.2 i = .loaded pair.1 i

theorem RequestDispatchMeta.mem_of_loadPairs {d : RequestDispatchMeta η} {pair : η × VllmBlock}
    (h : pair ∈ d.loadPairs) : pair.2 ∈ d.loadBlockIds.2 := (List.of_mem_zip h).2

variable {failed : ConnectorMetadata η}

theorem Untouched.transfer (h : Untouched metadata g g') {done : ConnectorMetadata η}
    (hdone : ∀ x ∈ done, x ∈ loads metadata) (hfailed : ∀ x ∈ failed, x ∈ loads metadata) :
    Untouched metadata g (g'.transfer done failed) := by
  intro v hv i
  have hfind : (done.flatMap fun x => x.2.loadPairs).find? (fun pair => pair.2 = v) = none := by
    rw [List.find?_eq_none]
    intro pair hpair heq
    obtain ⟨x, hx, hpair⟩ := List.mem_flatMap.mp hpair
    have hmem := RequestDispatchMeta.mem_of_loadPairs hpair
    rw [of_decide_eq_true heq] at hmem
    exact hv x (hdone x hx) hmem
  have hnot : v ∉ failedBlocks failed := by
    intro hmem
    obtain ⟨x, hx, hmem⟩ := List.mem_flatMap.mp hmem
    exact hv x (hfailed x hx) hmem
  unfold Layer.transfer
  simp only [hfind, hnot, if_false]
  exact h v hv i

theorem Plan.transfer (h : Plan kind cfg layers metadata batch o g₀ good)
    (hg : Untouched metadata g g') {done : ConnectorMetadata η}
    (hdone : ∀ x ∈ done, x ∈ loads metadata) (hfailed : ∀ x ∈ failed, x ∈ loads metadata)
    (hall : ∀ x ∈ loads metadata, ¬Fails kind layers o x.1 → x ∈ done) :
    Arrived kind layers metadata o g (g'.transfer done failed) := by
  refine ⟨hg.transfer hdone hfailed, ?_⟩
  intro x hx hok pair hpair i
  have hmem : pair ∈ done.flatMap fun x => x.2.loadPairs :=
    List.mem_flatMap.mpr ⟨x, hall x hx hok, hpair⟩
  have hfind : (done.flatMap fun x => x.2.loadPairs).find? (fun b => b.2 = pair.2) = some pair := by
    cases hfound : (done.flatMap fun x => x.2.loadPairs).find? (fun b => b.2 = pair.2) with
    | none => exact absurd (List.find?_eq_none.mp hfound pair hmem) (by simp)
    | some found =>
      have hblock : found.2 = pair.2 := by simpa using List.find?_some hfound
      obtain ⟨y, hy, hfound⟩ := List.mem_flatMap.mp (List.mem_of_find?_eq_some hfound)
      rw [h.pairs_unique y (hdone y hy) x hx found hfound pair hpair hblock]
  unfold Layer.transfer
  simp only [hfind]

variable {tainted : List ReqId}

theorem Layer.write_of_none {bs i : Nat} (h : ∀ q ∈ batch, q.position bs v i = none) :
    g.write bs batch tainted v i = g v i := by
  have hfind : batch.findSome? (fun q => (q.position bs v i).map fun p => (q, p)) = none := by
    rw [List.findSome?_eq_none_iff]
    intro q hq
    rw [h q hq]
    rfl
  unfold Layer.write
  simp only [hfind]

theorem Layer.write_of_some {bs i : Nat} (hr : r ∈ batch) (hp : r.position bs v i = some p)
    (h : ∀ q ∈ batch, q ≠ r → q.position bs v i = none) (htainted : r.id ∉ tainted) :
    g.write bs batch tainted v i = .computed (r.tokens.take (p + 1)) := by
  have hfind : batch.findSome? (fun q => (q.position bs v i).map fun p => (q, p)) = some (r, p) := by
    cases hfound : batch.findSome? (fun q => (q.position bs v i).map fun p => (q, p)) with
    | none =>
      have := List.findSome?_eq_none_iff.mp hfound r hr
      rw [hp] at this
      simp at this
    | some found =>
      obtain ⟨q, hq, hfound⟩ := List.exists_of_findSome?_eq_some hfound
      obtain ⟨p', hp', rfl⟩ := Option.map_eq_some_iff.mp hfound
      by_cases heq : q = r
      · subst heq
        rw [hp] at hp'
        cases hp'
        rfl
      · rw [h q hq heq] at hp'
        simp at hp'
  unfold Layer.write
  simp only [hfind, htainted, if_false]

theorem Plan.valid_of_sourced (h : Plan kind cfg layers metadata batch o g₀ good) (hl : l < layers)
    (hg : Arrived kind layers metadata o (g₀ l) g) (hr : good r) (hp : p < r.stop)
    (hsourced : Sourced kind cfg layers metadata batch o g₀ r p)
    (hexclusive : Exclusive cfg batch r p) (htainted : r.id ∉ tainted) :
    (g.write cfg.blockSize batch tainted).Valid cfg r.tokens r.table p := by
  have hslot : p % cfg.blockSize < cfg.blockSize := Nat.mod_lt _ cfg.blockSize_pos
  obtain ⟨v, hv⟩ := hsourced.block
  have hposition := Sequence.position_eq (h.nodup r hr) hv hslot
  rw [cfg.block_slot] at hposition
  have hothers : ∀ q ∈ batch, q ≠ r →
      q.position cfg.blockSize v (p % cfg.blockSize) = none := by
    intro q hq hne
    exact hexclusive q hq (fun hid => hne (h.row r hr q hq hid)) v hv
  refine ⟨v, hv, ?_⟩
  -- Before the start of the request's part nobody writes.
  have hkept : p < r.start → g.write cfg.blockSize batch tainted v (p % cfg.blockSize) =
      g v (p % cfg.blockSize) := by
    intro hstart
    refine Layer.write_of_none ?_
    intro q hq
    by_cases heq : q = r
    · rw [heq, hposition, if_neg (by omega)]
    · exact hothers q hq heq
  cases hsourced with
  | own hmem hstart _ _ =>
    rw [if_pos ⟨hstart, hp⟩] at hposition
    rw [Layer.write_of_some hmem hposition hothers htainted]
    rfl
  | kept hstart v' hv' hload hvalid =>
    rw [hv] at hv'
    cases hv'
    rw [hkept hstart, hg.untouched v hload]
    obtain ⟨v', hv', hvalid⟩ := hvalid l hl
    rw [Option.mem_def, hv] at hv'
    cases hv'
    exact hvalid
  | loaded hstart v' hv' x hx hok hpair hfull =>
    rw [hv] at hv'
    cases hv'
    rw [hkept hstart, hg.loaded x hx hok _ hpair]
    exact ⟨rfl, hfull, rfl⟩

theorem Plan.write_good (h : Plan kind cfg layers metadata batch o g₀ good)
    (hcp : cfg.cpWorldSize = 1) (hl : l < layers) (hg : Arrived kind layers metadata o (g₀ l) g)
    (htainted : ∀ r, good r → r.id ∉ tainted) :
    GoodLayer cfg good (g.write cfg.blockSize batch tainted) := by
  intro r hr p hp
  obtain ⟨q, hq, hqp, hblock, htake, hsourced, hexclusive⟩ := h.support r hr p hp
  obtain ⟨v, hv, hvalid⟩ := h.valid_of_sourced hl hg hq hqp hsourced hexclusive (htainted q hq)
  exact ⟨v, by rw [← hblock]; exact hv, hvalid.of_take htake hcp⟩

/-! ## Dumps and failures -/

@[simp] theorem Worker.dumpData_gpu : (w.dumpData metadata l).gpu = w.gpu := by
  unfold Worker.dumpData
  split_ifs <;> rfl

@[simp] theorem Worker.dumpData_tainted : (w.dumpData metadata l).tainted = w.tainted := by
  unfold Worker.dumpData
  split_ifs <;> rfl

@[simp] theorem Worker.dumpData_invalidBlockIds :
    (w.dumpData metadata l).invalidBlockIds = w.invalidBlockIds := by
  unfold Worker.dumpData
  split_ifs <;> rfl

@[simp] theorem Worker.dumpData_failureReqIds :
    (w.dumpData metadata l).failureReqIds = w.failureReqIds := by
  unfold Worker.dumpData
  split_ifs <;> rfl

@[simp] theorem Worker.dumpData_loadTasks : (w.dumpData metadata l).loadTasks = w.loadTasks := by
  unfold Worker.dumpData
  split_ifs <;> rfl

/-- The calls so far find the good requests valid. -/
def DumpsOk (cfg : Config η) (metadata : ConnectorMetadata η) (good : Sequence → Prop)
    (w : Worker η) : Prop :=
  ∀ c ∈ w.dumps, c.entries = dumpEntries metadata ∧ ∀ l ≤ c.layer, GoodLayer cfg good (c.gpu l)

theorem DumpsOk.dumpData (h : DumpsOk cfg metadata good w) {n : Nat}
    (hgood : ∀ l ≤ n, GoodLayer cfg good (w.gpu l)) :
    DumpsOk cfg metadata good (w.dumpData metadata n) := by
  unfold Worker.dumpData
  split_ifs
  · exact h
  · intro c hc
    rcases List.mem_append.mp hc with hc | hc
    · exact h c hc
    · rw [List.mem_singleton] at hc
      subst hc
      exact ⟨rfl, hgood⟩

/-- The invalid blocks are those of the requests noted. -/
def Noted (metadata : ConnectorMetadata η) (w : Worker η) : Prop :=
  ∀ v, v ∈ w.invalidBlockIds ↔
    ∃ x ∈ loads metadata, x.1 ∈ w.failureReqIds ∧ v ∈ x.2.loadBlockIds.2

theorem Worker.mem_fail (ok : ReqId → Bool)
    (h : ∀ x, x ∈ failed ↔ x ∈ loads metadata ∧ x.1 ∉ w.failureReqIds ∧ ok x.1 = false)
    (id : ReqId) : id ∈ (w.fail failed).failureReqIds ↔
      id ∈ w.failureReqIds ∨ ok id = false ∧ ∃ x ∈ loads metadata, x.1 = id := by
  unfold Worker.fail
  dsimp only
  rw [List.mem_append]
  constructor
  · rintro (hmem | hmem)
    · exact .inl hmem
    · obtain ⟨x, hx, rfl⟩ := List.mem_map.mp hmem
      obtain ⟨hload, -, hok⟩ := (h x).mp hx
      exact .inr ⟨hok, x, hload, rfl⟩
  · rintro (hmem | ⟨hok, x, hx, rfl⟩)
    · exact .inl hmem
    · by_cases hold : x.1 ∈ w.failureReqIds
      · exact .inl hold
      · exact .inr (List.mem_map_of_mem ((h x).mpr ⟨hx, hold, hok⟩))

theorem Noted.fail (hw : Noted metadata w) (ok : ReqId → Bool)
    (h : ∀ x, x ∈ failed ↔ x ∈ loads metadata ∧ x.1 ∉ w.failureReqIds ∧ ok x.1 = false) :
    Noted metadata (w.fail failed) := by
  intro v
  show v ∈ w.invalidBlockIds ++ failedBlocks failed ↔ _
  rw [List.mem_append, hw v]
  constructor
  · rintro (⟨x, hx, hid, hv⟩ | hv)
    · exact ⟨x, hx, (Worker.mem_fail ok h x.1).mpr (.inl hid), hv⟩
    · obtain ⟨x, hx, hv⟩ := List.mem_flatMap.mp hv
      obtain ⟨hload, -, hok⟩ := (h x).mp hx
      exact ⟨x, hload, (Worker.mem_fail ok h x.1).mpr (.inr ⟨hok, x, hload, rfl⟩), hv⟩
  · rintro ⟨x, hx, hid, hv⟩
    by_cases hold : x.1 ∈ w.failureReqIds
    · exact .inl ⟨x, hx, hold, hv⟩
    · rcases (Worker.mem_fail ok h x.1).mp hid with hid | ⟨hok, -⟩
      · exact absurd hid hold
      · exact .inr (List.mem_flatMap.mpr ⟨x, (h x).mpr ⟨hx, hold, hok⟩, hv⟩)

/-! ## The forward pass -/

theorem Plan.forwardLayer [DecidableEq η] (h : Plan kind cfg layers metadata batch o g₀ good)
    (hcp : cfg.cpWorldSize = 1) (hl : l < layers)
    (hg : Arrived kind layers metadata o (g₀ l) (w.gpu l))
    (htainted : ∀ r, good r → r.id ∉ w.tainted) :
    GoodLayer cfg good ((w.forwardLayer cfg batch l).gpu l) ∧
      ∀ r, good r → r.id ∉ (w.forwardLayer cfg batch l).tainted := by
  have hgood := h.write_good hcp hl hg htainted
  unfold Worker.forwardLayer
  dsimp only
  refine ⟨by rw [update_self]; exact hgood, ?_⟩
  intro r hr hmem
  rcases List.mem_append.mp hmem with hmem | hmem
  · exact htainted r hr hmem
  · obtain ⟨q, hq, hid⟩ := List.mem_map.mp hmem
    obtain ⟨hq, hreads⟩ := List.mem_filter.mp hq
    have heq := h.row r hr q hq hid
    subst heq
    simp only [Bool.not_eq_true', decide_eq_false_iff_not] at hreads
    refine hreads ?_
    intro p hp
    exact hgood q hr p (Nat.lt_of_lt_of_le hp (h.start_le q hr))

theorem Worker.forwardLayer_of_ne [DecidableEq η] {l' : Nat} (h : l' ≠ l) :
    (w.forwardLayer cfg batch l).gpu l' = w.gpu l' := update_of_ne h _ _

/-- What the worker leaves behind. -/
structure WorkerOk (kind : ConnectorKind) (cfg : Config η) (layers : Nat)
    (metadata : ConnectorMetadata η) (o : Outcomes) (good : Sequence → Prop) (w : Worker η) :
    Prop where
  gpu : ∀ l < layers, GoodLayer cfg good (w.gpu l)
  dumps : DumpsOk cfg metadata good w
  invalid : ∀ v, v ∈ w.invalidBlockIds ↔
    ∃ x ∈ loads metadata, Fails kind layers o x.1 ∧ v ∈ x.2.loadBlockIds.2
  failed : ∀ id ∈ w.failureReqIds, Fails kind layers o id ∧ ∃ x ∈ loads metadata, x.1 = id

/-! ## The direct connector -/

/-- Between two layers. -/
structure Direct.Between (cfg : Config η) (layers : Nat) (metadata : ConnectorMetadata η)
    (o : Outcomes) (g₀ : Gpu η) (good : Sequence → Prop) (w : Worker η) (n : Nat) : Prop where
  done : ∀ l < n, GoodLayer cfg good (w.gpu l)
  todo : ∀ l, n ≤ l → Arrived .direct layers metadata o (g₀ l) (w.gpu l)
  tainted : ∀ r, good r → r.id ∉ w.tainted

theorem Direct.startLoadKv_spec (h : Plan .direct cfg layers metadata batch o g₀ good)
    (hw : w = ⟨g₀, [], [], [], fun _ => [], []⟩) :
    Direct.Between cfg layers metadata o g₀ good (Direct.startLoadKv metadata o w) 0 ∧
      Noted metadata (Direct.startLoadKv metadata o w) ∧
      ∀ id, id ∈ (Direct.startLoadKv metadata o w).failureReqIds ↔
        Fails .direct layers o id ∧ ∃ x ∈ loads metadata, x.1 = id := by
  have hfails : ∀ id, (o.submit 0 id && o.wait 0 id) = false ↔ Fails .direct layers o id := by
    intro id
    unfold Fails ConnectorKind.tasks
    simp
  have hfailed : ∀ x, x ∈ (loads metadata).filter (fun x => !o.submit 0 x.1) ++
      ((loads metadata).filter fun x => o.submit 0 x.1).filter (fun x => !o.wait 0 x.1) ↔
      x ∈ loads metadata ∧ x.1 ∉ w.failureReqIds ∧ (o.submit 0 x.1 && o.wait 0 x.1) = false := by
    intro x
    simp only [hw, List.mem_append, List.mem_filter, List.not_mem_nil, not_false_eq_true, true_and]
    cases o.submit 0 x.1 <;> cases o.wait 0 x.1 <;> simp
  have hnoted : Noted metadata w := by
    intro v
    simp [hw]
  refine ⟨⟨by simp, ?_, by simp [hw, Direct.startLoadKv, Worker.fail]⟩,
    hnoted.fail (fun id => o.submit 0 id && o.wait 0 id) hfailed, ?_⟩
  · intro l _
    refine h.transfer (g := g₀ l) ?_ ?_ ?_ ?_
    · intro v _ i
      rw [hw]
    · intro x hx
      exact (List.mem_filter.mp (List.mem_filter.mp hx).1).1
    · intro x hx
      exact ((hfailed x).mp hx).1
    · intro x hx hok
      rw [← hfails, Bool.not_eq_false, Bool.and_eq_true] at hok
      exact List.mem_filter.mpr ⟨List.mem_filter.mpr ⟨hx, hok.1⟩, hok.2⟩
  · intro id
    refine (Worker.mem_fail (fun id => o.submit 0 id && o.wait 0 id) hfailed id).trans ?_
    simp only [hw, List.not_mem_nil, false_or, hfails]

theorem Direct.Between.forwardLayer [DecidableEq η]
    (h : Plan .direct cfg layers metadata batch o g₀ good) (hcp : cfg.cpWorldSize = 1) {n : Nat}
    (hw : Direct.Between cfg layers metadata o g₀ good w n) (hn : n < layers) :
    Direct.Between cfg layers metadata o g₀ good (w.forwardLayer cfg batch n) (n + 1) := by
  obtain ⟨hgood, htainted⟩ := h.forwardLayer hcp hn (hw.todo n (Nat.le_refl n)) hw.tainted
  refine ⟨?_, ?_, htainted⟩
  · intro l hl
    by_cases heq : l = n
    · rw [heq]
      exact hgood
    · rw [Worker.forwardLayer_of_ne heq]
      exact hw.done l (by omega)
  · intro l hl
    rw [Worker.forwardLayer_of_ne (by omega)]
    exact hw.todo l (by omega)

theorem Direct.run_ok [DecidableEq η] (h : Plan .direct cfg layers metadata batch o g₀ good)
    (hcp : cfg.cpWorldSize = 1) (hlayers : 0 < layers)
    (hw : w = ⟨g₀, [], [], [], fun _ => [], []⟩) :
    WorkerOk .direct cfg layers metadata o good (Direct.run cfg layers metadata batch o w) := by
  obtain ⟨hstart, hnoted, hfailed⟩ := Direct.startLoadKv_spec h hw
  have hdumps : (Direct.startLoadKv metadata o w).dumps = [] := by
    simp [hw, Direct.startLoadKv, Worker.fail]
  generalize hw₁ : Direct.startLoadKv metadata o w = w₁ at hstart hnoted hfailed hdumps
  have hrun : ∀ n ≤ layers, Direct.Between cfg layers metadata o g₀ good
      ((List.range n).foldl (fun w l => w.forwardLayer cfg batch l) w₁) n ∧
      ((List.range n).foldl (fun w l => w.forwardLayer cfg batch l) w₁).invalidBlockIds =
        w₁.invalidBlockIds ∧
      ((List.range n).foldl (fun w l => w.forwardLayer cfg batch l) w₁).failureReqIds =
        w₁.failureReqIds ∧
      ((List.range n).foldl (fun w l => w.forwardLayer cfg batch l) w₁).dumps = w₁.dumps := by
    intro n
    induction n with
    | zero => exact fun _ => ⟨hstart, rfl, rfl, rfl⟩
    | succ n ih =>
      intro hn
      obtain ⟨hbetween, hinvalid, hfailure, hdump⟩ := ih (by omega)
      rw [List.range_succ, List.foldl_append, List.foldl_cons, List.foldl_nil]
      exact ⟨hbetween.forwardLayer h hcp (by omega), hinvalid, hfailure, hdump⟩
  obtain ⟨hbetween, hinvalid, hfailure, hdump⟩ := hrun layers (Nat.le_refl layers)
  unfold Direct.run
  dsimp only
  rw [hw₁]
  generalize (List.range layers).foldl (fun w l => w.forwardLayer cfg batch l) w₁ = w₂
    at hbetween hinvalid hfailure hdump ⊢
  have hok : DumpsOk cfg metadata good w₂ := by
    intro c hc
    rw [hdump, hdumps] at hc
    exact absurd hc List.not_mem_nil
  unfold Direct.waitForSave
  refine ⟨?_, hok.dumpData fun l hl => hbetween.done l (by omega), ?_, ?_⟩
  · intro l hl
    rw [Worker.dumpData_gpu]
    exact hbetween.done l hl
  · intro v
    rw [Worker.dumpData_invalidBlockIds, hinvalid, hnoted v]
    constructor
    · rintro ⟨x, hx, hid, hv⟩
      exact ⟨x, hx, ((hfailed x.1).mp hid).1, hv⟩
    · rintro ⟨x, hx, hfails, hv⟩
      exact ⟨x, hx, (hfailed x.1).mpr ⟨hfails, x, hx, rfl⟩, hv⟩
  · intro id hid
    rw [Worker.dumpData_failureReqIds, hfailure] at hid
    exact (hfailed id).mp hid

/-! ## The layer-wise connector -/

/-- Layers below `n` are through, and the loads of the first `m` layers waited for. -/
structure LayerWise.Between (cfg : Config η) (layers : Nat) (metadata : ConnectorMetadata η)
    (o : Outcomes) (g₀ : Gpu η) (good : Sequence → Prop) (w : Worker η) (n m : Nat) : Prop where
  done : ∀ l < n, GoodLayer cfg good (w.gpu l)
  todo : ∀ l, n ≤ l → Untouched metadata (g₀ l) (w.gpu l)
  tainted : ∀ r, good r → r.id ∉ w.tainted
  noted : Noted metadata w
  failed : ∀ id ∈ w.failureReqIds, Fails .layerWise layers o id ∧ ∃ x ∈ loads metadata, x.1 = id
  all : ∀ x ∈ loads metadata, ∀ l < m, (o.submit l x.1 && o.wait l x.1) = false →
    x.1 ∈ w.failureReqIds
  dumps : DumpsOk cfg metadata good w

/-- The loads of layer `n` are on their way, except for the failed ones. -/
structure LayerWise.Submitted (metadata : ConnectorMetadata η) (o : Outcomes) (w : Worker η)
    (n : Nat) : Prop where
  tasks : ∀ x, x ∈ w.loadTasks n ↔ x ∈ loads metadata ∧ x.1 ∉ w.failureReqIds
  failed : ∀ x ∈ loads metadata, o.submit n x.1 = false → x.1 ∈ w.failureReqIds

namespace LayerWise

variable {n m k : Nat}

theorem Between.fail (h : Between cfg layers metadata o g₀ good w n m) (ok : ReqId → Bool)
    (hfailed : ∀ x, x ∈ failed ↔ x ∈ loads metadata ∧ x.1 ∉ w.failureReqIds ∧ ok x.1 = false)
    (hok : ∀ id, ok id = false → Fails .layerWise layers o id) {w' : Worker η}
    (hdone : ∀ l < n, w'.gpu l = w.gpu l)
    (htodo : ∀ l, n ≤ l → Untouched metadata (g₀ l) (w'.gpu l)) (htainted : w'.tainted = w.tainted)
    (hinvalid : w'.invalidBlockIds = (w.fail failed).invalidBlockIds)
    (hfailure : w'.failureReqIds = (w.fail failed).failureReqIds) (hdumps : w'.dumps = w.dumps) :
    Between cfg layers metadata o g₀ good w' n m := by
  have hmem := Worker.mem_fail ok hfailed
  refine ⟨fun l hl => hdone l hl ▸ h.done l hl, htodo, htainted ▸ h.tainted, ?_, ?_, ?_, ?_⟩
  · intro v
    rw [hinvalid, hfailure]
    exact h.noted.fail ok hfailed v
  · intro id hid
    rw [hfailure, hmem] at hid
    rcases hid with hid | ⟨hfalse, hx⟩
    · exact h.failed id hid
    · exact ⟨hok id hfalse, hx⟩
  · intro x hx l hl hfalse
    rw [hfailure, hmem]
    exact .inl (h.all x hx l hl hfalse)
  · unfold DumpsOk
    rw [hdumps]
    exact h.dumps

theorem submit_of_ne (h : l ≠ k) :
    (submitRequestLoadTasksForLayer metadata o k w).gpu l = w.gpu l := update_of_ne h _ _

theorem Between.submit (h : Between cfg layers metadata o g₀ good w n m) (hnk : n ≤ k)
    (hk : k < layers) :
    Between cfg layers metadata o g₀ good (submitRequestLoadTasksForLayer metadata o k w) n m ∧
      Submitted metadata o (submitRequestLoadTasksForLayer metadata o k w) k := by
  have hfailed : ∀ x, x ∈ ((loads metadata).filter fun x => x.1 ∉ w.failureReqIds).filter
      (fun x => !o.submit k x.1) ↔
      x ∈ loads metadata ∧ x.1 ∉ w.failureReqIds ∧ o.submit k x.1 = false := by
    intro x
    simp only [List.mem_filter, decide_eq_true_eq, Bool.not_eq_true', and_assoc]
  have hmem := Worker.mem_fail (o.submit k) hfailed
  constructor
  · refine h.fail (o.submit k) hfailed ?_ ?_ ?_ rfl rfl rfl rfl
    · intro id hfalse
      exact ⟨k, hk, by rw [hfalse, Bool.false_and]⟩
    · intro l hl
      exact submit_of_ne (by omega)
    · intro l hl
      by_cases heq : l = k
      · subst heq
        show Untouched metadata (g₀ l) (update w.gpu l _ l)
        rw [update_self]
        exact (h.todo l hl).transfer (by simp) fun x hx => ((hfailed x).mp hx).1
      · rw [submit_of_ne heq]
        exact h.todo l hl
  · constructor
    · intro x
      show x ∈ update w.loadTasks k _ k ↔ x ∈ loads metadata ∧
        x.1 ∉ (w.fail _).failureReqIds
      rw [update_self, hmem]
      simp only [List.mem_filter, decide_eq_true_eq, not_or, not_and, not_exists, and_assoc]
      constructor
      · rintro ⟨hx, hnot, hsubmit⟩
        exact ⟨hx, hnot, fun hfalse => absurd (hsubmit.symm.trans hfalse) (by simp)⟩
      · rintro ⟨hx, hnot, hall⟩
        refine ⟨hx, hnot, ?_⟩
        by_contra hfalse
        exact hall (Bool.eq_false_iff.mpr hfalse) x hx rfl
    · intro x hx hfalse
      show x.1 ∈ (w.fail _).failureReqIds
      rw [hmem]
      exact .inr ⟨hfalse, x, hx, rfl⟩

theorem Between.wait (h : Between cfg layers metadata o g₀ good w n n)
    (hplan : Plan .layerWise cfg layers metadata batch o g₀ good)
    (hsubmitted : Submitted metadata o w n) (hn : n < layers) {w' : Worker η}
    (hw' : w' = { w.fail ((w.loadTasks n).filter fun x => !o.wait n x.1) with
      gpu := update w.gpu n ((w.gpu n).transfer
        ((w.loadTasks n).filter fun x => o.wait n x.1)
        ((w.loadTasks n).filter fun x => !o.wait n x.1)) }) :
    Between cfg layers metadata o g₀ good w' n (n + 1) ∧
      Arrived .layerWise layers metadata o (g₀ n) (w'.gpu n) := by
  have hfailed : ∀ x, x ∈ (w.loadTasks n).filter (fun x => !o.wait n x.1) ↔
      x ∈ loads metadata ∧ x.1 ∉ w.failureReqIds ∧ o.wait n x.1 = false := by
    intro x
    simp only [List.mem_filter, hsubmitted.tasks, Bool.not_eq_true', and_assoc]
  have hmem := Worker.mem_fail (o.wait n) hfailed
  have harrived : Arrived .layerWise layers metadata o (g₀ n) (w'.gpu n) := by
    rw [hw']
    show Arrived _ _ _ _ _ (update w.gpu n _ n)
    rw [update_self]
    refine hplan.transfer (h.todo n (Nat.le_refl n)) ?_ ?_ ?_
    · intro x hx
      exact ((hsubmitted.tasks x).mp (List.mem_filter.mp hx).1).1
    · intro x hx
      exact ((hfailed x).mp hx).1
    · intro x hx hok
      have hnot : x.1 ∉ w.failureReqIds := fun hid => hok (h.failed x.1 hid).1
      refine List.mem_filter.mpr ⟨(hsubmitted.tasks x).mpr ⟨hx, hnot⟩, ?_⟩
      by_contra hwait
      exact hok ⟨n, hn, by rw [Bool.eq_false_iff.mpr hwait, Bool.and_false]⟩
  have hbetween : Between cfg layers metadata o g₀ good w' n n := by
    refine h.fail (o.wait n) hfailed ?_ ?_ ?_ (by rw [hw']; rfl) (by rw [hw']) (by rw [hw'])
      (by rw [hw']; rfl)
    · intro id hfalse
      exact ⟨n, hn, by rw [hfalse, Bool.and_false]⟩
    · intro l hl
      rw [hw']
      exact update_of_ne (by omega) _ _
    · intro l hl
      by_cases heq : l = n
      · rw [heq]
        exact harrived.untouched
      · rw [hw']
        show Untouched metadata (g₀ l) (update w.gpu n _ l)
        rw [update_of_ne heq]
        exact h.todo l hl
  refine ⟨⟨hbetween.done, hbetween.todo, hbetween.tainted, hbetween.noted, hbetween.failed, ?_,
    hbetween.dumps⟩, harrived⟩
  intro x hx l hl hfalse
  by_cases heq : l = n
  · subst heq
    rw [hw']
    show x.1 ∈ (w.fail _).failureReqIds
    rw [hmem]
    rcases Bool.and_eq_false_iff.mp hfalse with hfalse | hfalse
    · exact .inl (hsubmitted.failed x hx hfalse)
    · exact .inr ⟨hfalse, x, hx, rfl⟩
  · exact hbetween.all x hx l (by omega) hfalse

theorem Between.runLayer [DecidableEq η] (h : Between cfg layers metadata o g₀ good w n n)
    (hplan : Plan .layerWise cfg layers metadata batch o g₀ good) (hcp : cfg.cpWorldSize = 1)
    (hsubmitted : Submitted metadata o w n) (hn : n < layers) :
    Between cfg layers metadata o g₀ good
        (LayerWise.runLayer cfg layers metadata batch o w n) (n + 1) (n + 1) ∧
      (n + 1 < layers →
        Submitted metadata o (LayerWise.runLayer cfg layers metadata batch o w n) (n + 1)) := by
  obtain ⟨hwaited, harrived⟩ := h.wait hplan hsubmitted hn rfl
  -- The loads of the next layer go out before the forward pass through this one.
  have hnext : ∃ w', waitForLayerLoad layers metadata o n w = w' ∧
      Between cfg layers metadata o g₀ good w' n (n + 1) ∧
      Arrived .layerWise layers metadata o (g₀ n) (w'.gpu n) ∧
      (n + 1 < layers → Submitted metadata o w' (n + 1)) := by
    unfold waitForLayerLoad
    dsimp only
    split_ifs with hlt
    · obtain ⟨hbetween, hsub⟩ := hwaited.submit (k := n + 1) (by omega) hlt
      refine ⟨_, rfl, hbetween, ?_, fun _ => hsub⟩
      rw [submit_of_ne (by omega)]
      exact harrived
    · exact ⟨_, rfl, hwaited, harrived, fun hlt' => absurd hlt' hlt⟩
  obtain ⟨w', hw', hbetween, harrived, hsub⟩ := hnext
  obtain ⟨hgood, htainted⟩ := hplan.forwardLayer hcp hn harrived hbetween.tainted
  have hdone : ∀ l < n + 1, GoodLayer cfg good ((w'.forwardLayer cfg batch n).gpu l) := by
    intro l hl
    by_cases heq : l = n
    · rw [heq]
      exact hgood
    · rw [Worker.forwardLayer_of_ne heq]
      exact hbetween.done l (by omega)
  have hdumps : DumpsOk cfg metadata good (w'.forwardLayer cfg batch n) := hbetween.dumps
  unfold LayerWise.runLayer saveKvLayer
  rw [hw']
  constructor
  · refine ⟨?_, ?_, ?_, ?_, ?_, ?_, hdumps.dumpData fun l hl => hdone l (by omega)⟩
    · rw [Worker.dumpData_gpu]
      exact hdone
    · intro l hl
      rw [Worker.dumpData_gpu, Worker.forwardLayer_of_ne (by omega)]
      exact hbetween.todo l (by omega)
    · rw [Worker.dumpData_tainted]
      exact htainted
    · intro v
      rw [Worker.dumpData_invalidBlockIds, Worker.dumpData_failureReqIds]
      exact hbetween.noted v
    · rw [Worker.dumpData_failureReqIds]
      exact hbetween.failed
    · rw [Worker.dumpData_failureReqIds]
      exact hbetween.all
  · intro hlt
    obtain ⟨htasks, hfailed⟩ := hsub hlt
    constructor
    · rw [Worker.dumpData_loadTasks, Worker.dumpData_failureReqIds]
      exact htasks
    · rw [Worker.dumpData_failureReqIds]
      exact hfailed

theorem run_ok [DecidableEq η] (hplan : Plan .layerWise cfg layers metadata batch o g₀ good)
    (hcp : cfg.cpWorldSize = 1) (hlayers : 0 < layers)
    (hw : w = ⟨g₀, [], [], [], fun _ => [], []⟩) :
    WorkerOk .layerWise cfg layers metadata o good
      (LayerWise.run cfg layers metadata batch o w) := by
  have hbegin : Between cfg layers metadata o g₀ good w 0 0 := by
    rw [hw]
    exact ⟨by simp, fun l _ v _ i => rfl, by simp, fun v => by simp, by simp, by simp,
      fun c hc => absurd hc List.not_mem_nil⟩
  have hrun : ∀ n ≤ layers, Between cfg layers metadata o g₀ good ((List.range n).foldl
      (LayerWise.runLayer cfg layers metadata batch o) (startLoadKv metadata o w)) n n ∧
      (n < layers → Submitted metadata o ((List.range n).foldl
        (LayerWise.runLayer cfg layers metadata batch o) (startLoadKv metadata o w)) n) := by
    intro n
    induction n with
    | zero =>
      intro _
      rw [hw] at hbegin ⊢
      obtain ⟨hbetween, hsubmitted⟩ := hbegin.submit (k := 0) (Nat.le_refl 0) hlayers
      exact ⟨hbetween, fun _ => hsubmitted⟩
    | succ n ih =>
      intro hn
      obtain ⟨hbetween, hsubmitted⟩ := ih (by omega)
      rw [List.range_succ, List.foldl_append, List.foldl_cons, List.foldl_nil]
      exact hbetween.runLayer hplan hcp (hsubmitted (by omega)) (by omega)
  obtain ⟨hbetween, -⟩ := hrun layers (Nat.le_refl layers)
  refine ⟨hbetween.done, hbetween.dumps, ?_, hbetween.failed⟩
  intro v
  refine (hbetween.noted v).trans ?_
  constructor
  · rintro ⟨x, hx, hid, hv⟩
    exact ⟨x, hx, (hbetween.failed x.1 hid).1, hv⟩
  · rintro ⟨x, hx, ⟨l, hl, hfalse⟩, hv⟩
    exact ⟨x, hx, hbetween.all x hx l hl hfalse, hv⟩

end LayerWise

/-- **The worker.** Under a plan either connector keeps the good requests valid. -/
theorem runWorker_ok [DecidableEq η] (h : Plan kind cfg layers metadata batch o g₀ good)
    (hcp : cfg.cpWorldSize = 1) (hlayers : 0 < layers) :
    WorkerOk kind cfg layers metadata o good
      (runWorker kind cfg layers metadata batch o g₀) := by
  cases kind with
  | direct => exact Direct.run_ok h hcp hlayers rfl
  | layerWise => exact LayerWise.run_ok h hcp hlayers rfl

end UnifiedCache.Connector
