import UnifiedCache.Gsa.CalKpreAndTopk
import Mathlib.Data.List.Nodup

/-!
# Proofs: the invariant of the hand-over of top-k requests

One decode step is handed over at a time. Nothing may be on its way (`Idle`); or the main thread has
asked for a top-k and layer 0 is not ready yet (`Opening`); or a pass is due or on (`Active`); or
the pass is over and `ResetReady` clears the flags (`Resetting`). What the copy thread still has to
take is a rest of the requests of this step, and after it keys of later steps only.
-/

open Function Lib

namespace UnifiedCache.Gsa.CalKpreAndTopk

variable {last k layer : Nat} {topk keys : Bool} {locations : List Int} {rest later : List CopyInfo}
  {qReady kReady : Nat → Bool} {s s' : State} {d : Decode} {r : CopyInfo}

/-! ## Requests -/

/-- The requests for the layers after the first. -/
def upperRequests (last : Nat) (topk keys : Bool) (locations : List Int) (k : Nat) : List CopyInfo :=
  (List.range last).flatMap fun layer => layerRequests topk keys locations k (layer + 1)

theorem requests_eq : requests last topk keys locations k =
    layerRequests topk keys locations k 0 ++ upperRequests last topk keys locations k := by
  unfold requests upperRequests
  rw [List.range_succ_eq_map, List.flatMap_cons, List.flatMap_map]

theorem mem_layerRequests : r ∈ layerRequests topk keys locations k layer ↔
    topk = true ∧ r = copyQ keys locations k layer ∨ keys = true ∧ r = copyK k layer := by
  unfold layerRequests
  cases topk <;> cases keys <;> simp

theorem mem_requests : r ∈ requests last topk keys locations k ↔ r.layerId ≤ last ∧
    (topk = true ∧ r = copyQ keys locations k r.layerId ∨ keys = true ∧ r = copyK k r.layerId) := by
  unfold requests
  rw [List.mem_flatMap]
  constructor
  · rintro ⟨layer, hlayer, hr⟩
    rw [List.mem_range, Nat.lt_succ_iff] at hlayer
    rcases mem_layerRequests.mp hr with ⟨htopk, rfl⟩ | ⟨hkeys, rfl⟩
    · exact ⟨hlayer, .inl ⟨htopk, rfl⟩⟩
    · exact ⟨hlayer, .inr ⟨hkeys, rfl⟩⟩
  · rintro ⟨hlayer, hr⟩
    exact ⟨r.layerId, List.mem_range.mpr (Nat.lt_succ_of_le hlayer), mem_layerRequests.mpr hr⟩

theorem layerId_upperRequests (hr : r ∈ upperRequests last topk keys locations k) : r.layerId ≠ 0 := by
  obtain ⟨layer, -, hr⟩ := List.mem_flatMap.mp hr
  rcases mem_layerRequests.mp hr with ⟨-, rfl⟩ | ⟨-, rfl⟩
  · exact Nat.succ_ne_zero layer
  · exact Nat.succ_ne_zero layer

theorem copyQ_ne_copyK (hloc : locations ≠ []) (layer layer' : Nat) :
    copyQ keys locations k layer ≠ copyK k layer' := fun h => hloc (congrArg CopyInfo.locations h)

theorem requests_nodup (hloc : topk = true → locations ≠ []) :
    (requests last topk keys locations k).Nodup := by
  refine List.nodup_flatMap.mpr ⟨fun layer _ => ?_, ?_⟩
  · unfold layerRequests
    cases topk with
    | false => cases keys <;> simp
    | true =>
      cases keys with
      | false => simp
      | true => simpa using copyQ_ne_copyK (hloc rfl) layer layer
  · refine List.nodup_range.imp_of_mem ?_
    intro layer layer' _ _ hne r hr hr'
    refine hne ?_
    have hlayer : ∀ l, r ∈ layerRequests topk keys locations k l → r.layerId = l := by
      intro l hl
      rcases mem_layerRequests.mp hl with ⟨-, rfl⟩ | ⟨-, rfl⟩
      · rfl
      · rfl
    exact (hlayer layer hr).symm.trans (hlayer layer' hr')

theorem requests_true : requests last true keys locations k = copyQ keys locations k 0 ::
    ((if keys then [copyK k 0] else []) ++ upperRequests last true keys locations k) := by
  rw [requests_eq]
  rfl

theorem requests_false : requests last false keys locations k =
    if keys then requests last false true [] k else [] := by
  unfold requests layerRequests
  cases keys with
  | false => simp
  | true => rfl

/-- The keys of decode steps without a top-k. -/
def KeySteps (last : Nat) (l : List CopyInfo) : Prop :=
  ∃ steps : List Nat, l = steps.flatMap fun step => requests last false true [] step

theorem KeySteps.nil : KeySteps last [] := ⟨[], rfl⟩

theorem KeySteps.isKey (h : KeySteps last later) : ∀ r ∈ later, r.locations = [] := by
  obtain ⟨steps, rfl⟩ := h
  intro r hr
  obtain ⟨step, -, hr⟩ := List.mem_flatMap.mp hr
  rcases (mem_requests.mp hr).2 with ⟨hfalse, -⟩ | ⟨-, hr⟩
  · cases hfalse
  · rw [hr]
    rfl

theorem KeySteps.append (h : KeySteps last later) (keys : Bool) (locations : List Int) (k : Nat) :
    KeySteps last (later ++ requests last false keys locations k) := by
  obtain ⟨steps, rfl⟩ := h
  rw [requests_false]
  cases keys with
  | false => exact ⟨steps, List.append_nil _⟩
  | true =>
    refine ⟨steps ++ [k], ?_⟩
    rw [List.flatMap_append, List.flatMap_singleton]
    rfl

theorem KeySteps.cons (h : KeySteps last (r :: later)) : ∃ step later', r = copyK step 0 ∧
    later = upperRequests last false true [] step ++ later' ∧ KeySteps last later' := by
  obtain ⟨steps, hsteps⟩ := h
  cases steps with
  | nil => cases hsteps
  | cons step steps =>
    rw [List.flatMap_cons, requests_eq] at hsteps
    cases hsteps
    exact ⟨step, _, rfl, rfl, steps, rfl⟩

/-! ## Progress -/

/-- What is ready of a decode step is what is not in the rest of its requests. -/
structure Progress (last k : Nat) (topk keys : Bool) (locations : List Int) (rest : List CopyInfo)
    (qReady kReady : Nat → Bool) : Prop where
  suffix : rest <:+ requests last topk keys locations k
  query : ∀ layer, qReady layer = true ↔
    layer ≤ last ∧ topk = true ∧ copyQ keys locations k layer ∉ rest
  key : ∀ layer, kReady layer = true ↔ layer ≤ last ∧ keys = true ∧ copyK k layer ∉ rest

namespace Progress

theorem start (hq : ∀ layer, qReady layer = false) (hk : ∀ layer, kReady layer = false) :
    Progress last k topk keys locations (requests last topk keys locations k) qReady kReady where
  suffix := List.suffix_refl _
  query layer := by
    rw [hq]
    refine iff_of_false nofun ?_
    rintro ⟨hlayer, htopk, hnot⟩
    exact hnot (mem_requests.mpr ⟨hlayer, .inl ⟨htopk, rfl⟩⟩)
  key layer := by
    rw [hk]
    refine iff_of_false nofun ?_
    rintro ⟨hlayer, hkeys, hnot⟩
    exact hnot (mem_requests.mpr ⟨hlayer, .inr ⟨hkeys, rfl⟩⟩)

theorem head (h : Progress last k topk keys locations (r :: rest) qReady kReady)
    (hloc : topk = true → locations ≠ []) : r.layerId ≤ last ∧ r ∉ rest ∧
      (topk = true ∧ r = copyQ keys locations k r.layerId ∨ keys = true ∧ r = copyK k r.layerId) := by
  obtain ⟨hlayer, hr⟩ := mem_requests.mp (h.suffix.subset List.mem_cons_self)
  have hnodup := (requests_nodup hloc).sublist h.suffix.sublist
  exact ⟨hlayer, (List.nodup_cons.mp hnodup).1, hr⟩

theorem storeQ (h : Progress last k topk keys locations (r :: rest) qReady kReady)
    (hloc : topk = true → locations ≠ []) (hr : r.locations ≠ []) :
    Progress last k topk keys locations rest (update qReady r.layerId true) kReady := by
  obtain ⟨hlayer, hnot, hcases⟩ := h.head hloc
  rcases hcases with ⟨htopk, heq⟩ | ⟨-, heq⟩
  · refine ⟨(List.suffix_cons r rest).trans h.suffix, fun layer => ?_, fun layer => ?_⟩
    · by_cases hl : layer = r.layerId
      · subst hl
        rw [update_self]
        exact iff_of_true rfl ⟨hlayer, htopk, heq ▸ hnot⟩
      · rw [update_of_ne hl, h.query, List.mem_cons, not_or]
        have hne : copyQ keys locations k layer ≠ r := fun hq => hl (congrArg CopyInfo.layerId hq)
        simp only [hne, not_false_eq_true, true_and]
    · rw [h.key, List.mem_cons, not_or]
      have hne : copyK k layer ≠ r := by
        rw [heq]
        exact (copyQ_ne_copyK (hloc htopk) _ _).symm
      simp only [hne, not_false_eq_true, true_and]
  · rw [heq] at hr
    exact absurd rfl hr

theorem storeK (h : Progress last k topk keys locations (r :: rest) qReady kReady)
    (hloc : topk = true → locations ≠ []) (hr : r.locations = []) :
    Progress last k topk keys locations rest qReady (update kReady r.layerId true) := by
  obtain ⟨hlayer, hnot, hcases⟩ := h.head hloc
  rcases hcases with ⟨htopk, heq⟩ | ⟨hkeys, heq⟩
  · rw [heq] at hr
    exact absurd hr (hloc htopk)
  · refine ⟨(List.suffix_cons r rest).trans h.suffix, fun layer => ?_, fun layer => ?_⟩
    · rw [h.query, List.mem_cons, not_or]
      refine and_congr_right fun _ => and_congr_right fun htopk => ?_
      have hne : copyQ keys locations k layer ≠ r := by
        rw [heq]
        exact copyQ_ne_copyK (hloc htopk) _ _
      simp only [hne, not_false_eq_true, true_and]
    · by_cases hl : layer = r.layerId
      · subst hl
        rw [update_self]
        exact iff_of_true rfl ⟨hlayer, hkeys, heq ▸ hnot⟩
      · rw [update_of_ne hl, h.key, List.mem_cons, not_or]
        have hne : copyK k layer ≠ r := fun hk => hl (congrArg CopyInfo.layerId hk)
        simp only [hne, not_false_eq_true, true_and]

theorem done (h : Progress last k topk keys locations rest qReady kReady)
    (hready : ∀ layer ≤ last, (keys = true → kReady layer = true) ∧
      (topk = true → qReady layer = true)) : rest = [] := by
  refine List.eq_nil_iff_forall_not_mem.mpr fun r hr => ?_
  obtain ⟨hlayer, ⟨htopk, heq⟩ | ⟨hkeys, heq⟩⟩ := mem_requests.mp (h.suffix.subset hr)
  · exact ((h.query _).mp ((hready _ hlayer).2 htopk)).2.2 (heq ▸ hr)
  · exact ((h.key _).mp ((hready _ hlayer).1 hkeys)).2.2 (heq ▸ hr)

end Progress

/-! ## The invariant -/

/-- The requests that the main thread is still to push. -/
def MainPc.ahead (last step : Nat) : MainPc → List CopyInfo
  | .setCommonParam _ | .setTopkParam _ => []
  | .setRepreSlotMapping d | .setTopkCache d => requests last true d.isCalKpre d.locations step
  | .forward reqs => reqs

/-- The requests that are not ready yet. -/
def State.coming (last : Nat) (s : State) : List CopyInfo :=
  s.copyPc.req.toList ++ s.copyQueue ++ s.mainPc.ahead last s.decodeStep

/-- Past the test of `CopyData`, a request is a query. -/
def CopyPc.Ok : CopyPc → Prop
  | .idle | .popped _ => True
  | .copying r | .setTopkDataReady r | .storing r => r.locations ≠ []
  | .locking r => r.locations ≠ [] ∧ r.layerId = 0

/-- `m_needCalPre` has been written for the request. -/
def CopyPc.started : CopyPc → Bool
  | .idle | .popped _ => false
  | _ => true

/-- The request whose rows have been copied. -/
def CopyPc.copied : CopyPc → Option CopyInfo
  | .setTopkDataReady r | .locking r | .storing r => some r
  | _ => none

/-- What holds at all times, with a rest of the requests of decode step `k`. -/
structure Common (last k : Nat) (rest : List CopyInfo) (s : State) : Prop where
  coming : ∃ later, s.coming last = rest ++ later ∧ KeySteps last later
  query : ∀ r ∈ rest, r.locations ≠ [] → r.step = k
  rows : ∀ r ∈ s.copyPc.req.toList ++ s.copyQueue, ∀ i < r.locations.length,
    s.gsaQCache r.layerId i = r.step
  copyPc : s.copyPc.Ok
  finished : ∀ x ∈ s.finished, Served last s.runs x
  consumed : ∀ c ∈ s.consumed, c.1 = c.2
  runs : ∀ r ∈ s.runs, ∃ x ∈ s.asked, x.1 = r.step
  asked : ∀ x ∈ s.asked, x.1 ≤ s.decodeStep

/-- Nothing is handed over. -/
structure Idle (last : Nat) (s : State) : Prop where
  calcPc : s.calcPc = .waiting
  needCalTopk : s.needCalTopk = false
  needCalPre : s.needCalPre = false
  qReady : ∀ layer, s.qReady layer = false
  kReady : ∀ layer, s.kReady layer = false
  topkFlag : s.topkFlag last = true
  served : ∀ x ∈ s.asked, Served last s.runs x

/-- The main thread is before the write of `m_needCalTopk`. -/
structure Preparing (s : State) (d : Decode) : Prop where
  locations : d.locations ≠ []
  copyPc : s.copyPc = .idle
  copyQueue : s.copyQueue = []
  mainPc : s.mainPc = .setCommonParam d ∨
    s.mainPc = .setTopkParam d ∧
      s.calTopkIdx = calTopkId d.locations ∧ s.isDecode = CalKpreAndTopk.isDecode d.locations
  asked : ∀ x ∈ s.asked, x.1 < s.decodeStep

/-- The last `SetTopkParam` is that of decode step `k`, and `i` of its layers have been computed. -/
structure Asked (last : Nat) (runs : List TopkRun) (asked : List (Nat × Decode)) (k : Nat)
    (d : Decode) (i : Nat) : Prop where
  asked : ∃ older, asked = (k, d) :: older ∧ ∀ x ∈ older, Served last runs x
  runs : ∀ layer ≤ last, (runs.filter fun r => r.step = k ∧ r.layer = layer) =
    if layer < i then [d.topkRun k layer] else []

/-- The parameters are those of decode step `k`. -/
def Params (s : State) (k : Nat) (d : Decode) : Prop :=
  (s.calTopkIdx = calTopkId d.locations ∧ s.isDecode = CalKpreAndTopk.isDecode d.locations) ∧
    s.repreSlotMapping = d.repreSlotMapping ∧ s.topkCache = k ∧ s.topkLens = d.topkLens

/-- The queries of the layers that are ready are those of decode step `k`. -/
structure Rows (qReady : Nat → Bool) (qCache : Nat → Nat → Nat) (copyPc : CopyPc) (k : Nat)
    (d : Decode) : Prop where
  ready : ∀ layer, qReady layer = true → ∀ i ∈ calTopkId d.locations, qCache layer i = k
  copied : ∀ r, copyPc.copied = some r → ∀ i ∈ calTopkId d.locations, qCache r.layerId i = k

/-- A top-k is asked for, and layer 0 is not ready yet. -/
structure Opening (last : Nat) (s : State) (k : Nat) (d : Decode) (rest : List CopyInfo) : Prop where
  calcPc : s.calcPc = .waiting
  topkFlag : s.topkFlag last = true
  needCalTopk : s.needCalTopk = true
  asked : Asked last s.runs s.asked k d 0
  locations : d.locations ≠ []
  mainPc : (s.decodeStep = k ∧ s.copyPc = .idle ∧ s.copyQueue = []) ∧
      (s.calTopkIdx = calTopkId d.locations ∧ s.isDecode = CalKpreAndTopk.isDecode d.locations) ∧
      (s.mainPc = .setRepreSlotMapping d ∨
        s.mainPc = .setTopkCache d ∧ s.repreSlotMapping = d.repreSlotMapping) ∨
    (∃ reqs, s.mainPc = .forward reqs) ∧ Params s k d
  progress : Progress last k true d.isCalKpre d.locations rest s.qReady s.kReady
  kReady : ∀ layer, s.kReady layer = false
  rest : rest = requests last true d.isCalKpre d.locations k ∨
    d.isCalKpre = true ∧ rest = copyK k 0 :: upperRequests last true true d.locations k
  qStep : ∀ layer, s.qReady layer = true → s.qStep layer = k
  rows : Rows s.qReady s.qCache s.copyPc k d
  needCalPre : s.needCalPre = (d.isCalKpre && (s.qReady 0 || s.copyPc.started))
  locking : ∀ r, s.copyPc = .locking r → d.isCalKpre = false
  storing : ∀ r, s.copyPc = .storing r → d.isCalKpre = true

/-- What the pass needs of a layer is ready. -/
def State.LayerReady (s : State) (topk keys : Bool) (layer : Nat) : Prop :=
  (keys = true → s.kReady layer = true) ∧ (topk = true → s.qReady layer = true)

/-- What holds of the calculate thread before and in the pass of decode step `k`. -/
def PassOk (last : Nat) (s : State) (k : Nat) (topk keys : Bool) : CalcPc → Prop
  | .waiting => s.ready = k
  | .layer i => s.pass = k ∧ i ≤ last ∧ ∀ layer < i, s.LayerReady topk keys layer
  | .waitKReady i =>
    s.pass = k ∧ i ≤ last ∧ (∀ layer < i, s.LayerReady topk keys layer) ∧ keys = true
  | .layerTopk i =>
    s.pass = k ∧ i ≤ last ∧ (∀ layer < i, s.LayerReady topk keys layer) ∧
      (keys = true → s.kReady i = true)
  | .waitQReady i =>
    s.pass = k ∧ i ≤ last ∧ (∀ layer < i, s.LayerReady topk keys layer) ∧
      (keys = true → s.kReady i = true) ∧ topk = true
  | .calculateTopk i =>
    s.pass = k ∧ i ≤ last ∧ (∀ layer < i, s.LayerReady topk keys layer) ∧
      s.LayerReady topk keys i ∧ topk = true
  | .storeFlag i => s.pass = k ∧ i ≤ last ∧ ∀ layer < i + 1, s.LayerReady topk keys layer
  | _ => False

/-- How many layers have been computed. -/
def CalcPc.computed : CalcPc → Nat
  | .layer i | .waitKReady i | .layerTopk i | .waitQReady i | .calculateTopk i => i
  | .storeFlag i => i + 1
  | _ => 0

/-- A pass is due or on. -/
structure Active (last : Nat) (s : State) (k : Nat) (topk keys : Bool) (d : Decode)
    (rest : List CopyInfo) : Prop where
  mainPc : ∃ reqs, s.mainPc = .forward reqs
  progress : Progress last k topk keys d.locations rest s.qReady s.kReady
  opened : ∀ r ∈ rest, r.layerId ≠ 0
  needed : topk = true ∨ keys = true
  needCalTopk : s.needCalTopk = topk
  needCalPre : s.needCalPre = keys
  topkFlag : s.topkFlag last = false
  qStep : ∀ layer, s.qReady layer = true → s.qStep layer = k
  kStep : ∀ layer, s.kReady layer = true → s.kStep layer = k
  calcPc : PassOk last s k topk keys s.calcPc
  /-- With a top-k, its layers are computed one by one. -/
  query : topk = true → d.locations ≠ [] ∧ Params s k d ∧ Rows s.qReady s.qCache s.copyPc k d ∧
    Asked last s.runs s.asked k d s.calcPc.computed
  served : topk = false → ∀ x ∈ s.asked, Served last s.runs x

/-- What holds in `ResetReady`. -/
def ResetOk (last : Nat) (s : State) (topk keys : Bool) : CalcPc → Prop
  | .resetReady => s.needCalTopk = topk ∧ s.needCalPre = keys
  | .resetQ i => i ≤ last ∧ s.needCalPre = keys ∧ ∀ layer < i, s.qReady layer = false
  | .resetPre => s.needCalPre = keys ∧ ∀ layer, s.qReady layer = false
  | .resetK i => i ≤ last ∧ (∀ layer, s.qReady layer = false) ∧ ∀ layer < i, s.kReady layer = false
  | .resetNeedTopk => (∀ layer, s.qReady layer = false) ∧ ∀ layer, s.kReady layer = false
  | .resetNeedPre =>
    ((∀ layer, s.qReady layer = false) ∧ ∀ layer, s.kReady layer = false) ∧ s.needCalTopk = false
  | _ => False

/-- The pass is over, and the flags are cleared. -/
structure Resetting (last : Nat) (s : State) (k : Nat) (topk keys : Bool) : Prop where
  mainPc : ∃ reqs, s.mainPc = .forward reqs
  topkFlag : s.topkFlag last = true
  served : ∀ x ∈ s.asked, Served last s.runs x
  pass : s.pass = k
  qReady : ∀ layer, s.qReady layer = true → layer ≤ last ∧ topk = true ∧ s.qStep layer = k
  kReady : ∀ layer, s.kReady layer = true → layer ≤ last ∧ keys = true ∧ s.kStep layer = k
  calcPc : ResetOk last s topk keys s.calcPc

/-- Where the hand-over is, with a rest of the requests of decode step `k`. -/
inductive Phase (last : Nat) (s : State) (k : Nat) : List CopyInfo → Prop where
  | idle (reqs : List CopyInfo) (hmain : s.mainPc = .forward reqs) (h : Idle last s) :
    Phase last s k []
  | preparing (d : Decode) (hprepare : Preparing s d) (h : Idle last s) : Phase last s k []
  | opening {rest : List CopyInfo} (d : Decode) (h : Opening last s k d rest) : Phase last s k rest
  | active {rest : List CopyInfo} (topk keys : Bool) (d : Decode)
    (h : Active last s k topk keys d rest) : Phase last s k rest
  | resetting (topk keys : Bool) (h : Resetting last s k topk keys) : Phase last s k []

/-- The invariant. -/
def Inv (last : Nat) (s : State) : Prop := ∃ k rest, Common last k rest s ∧ Phase last s k rest

/-! ## Phases -/

theorem Opening.first (h : Opening last s k d rest) :
    ∃ r rest', rest = r :: rest' ∧ r.layerId = 0 ∧ r.step = k := by
  rcases h.rest with hrest | ⟨-, hrest⟩
  · rw [requests_true] at hrest
    exact ⟨_, _, hrest, rfl, rfl⟩
  · exact ⟨_, _, hrest, rfl, rfl⟩

theorem Opening.not_due (h : Opening last s k d rest) : s.checkDataStatus = false := by
  unfold State.checkDataStatus
  split_ifs with hpre
  · exact h.kReady 0
  · by_contra hready
    rw [Bool.not_eq_false] at hready
    rw [h.needCalPre, hready, Bool.true_or, Bool.and_true] at hpre
    rcases h.rest with hrest | ⟨hkeys, -⟩
    · refine ((h.progress.query 0).mp hready).2.2 ?_
      rw [hrest, requests_true]
      exact List.mem_cons_self
    · exact hpre hkeys

theorem Active.due (h : Active last s k topk keys d rest) : s.checkDataStatus = true := by
  have hnot : ∀ r : CopyInfo, r.layerId = 0 → r ∉ rest := fun r hzero hr => h.opened r hr hzero
  unfold State.checkDataStatus
  rw [h.needCalPre]
  cases hkeys : keys with
  | true =>
    rw [if_pos rfl]
    exact (h.progress.key 0).mpr ⟨Nat.zero_le _, hkeys, hnot _ rfl⟩
  | false =>
    rw [if_neg Bool.false_ne_true]
    have htopk := h.needed.resolve_right (hkeys ▸ Bool.false_ne_true)
    exact (h.progress.query 0).mpr ⟨Nat.zero_le _, htopk, hnot _ rfl⟩

theorem State.LayerReady.mono (h : s.LayerReady topk keys layer)
    (hq : ∀ layer, s.qReady layer = true → s'.qReady layer = true)
    (hk : ∀ layer, s.kReady layer = true → s'.kReady layer = true) : s'.LayerReady topk keys layer :=
  ⟨fun hkeys => hk layer (h.1 hkeys), fun htopk => hq layer (h.2 htopk)⟩

theorem PassOk.mono {pc : CalcPc} (h : PassOk last s k topk keys pc)
    (hready : s'.ready = s.ready) (hpass : s'.pass = s.pass)
    (hq : ∀ layer, s.qReady layer = true → s'.qReady layer = true)
    (hk : ∀ layer, s.kReady layer = true → s'.kReady layer = true) :
    PassOk last s' k topk keys pc := by
  cases pc with
  | waiting => exact hready.trans h
  | layer i | storeFlag i => exact ⟨hpass.trans h.1, h.2.1, fun l hl => (h.2.2 l hl).mono hq hk⟩
  | waitKReady i =>
    exact ⟨hpass.trans h.1, h.2.1, fun l hl => (h.2.2.1 l hl).mono hq hk, h.2.2.2⟩
  | layerTopk i =>
    exact ⟨hpass.trans h.1, h.2.1, fun l hl => (h.2.2.1 l hl).mono hq hk,
      fun hkeys => hk i (h.2.2.2 hkeys)⟩
  | waitQReady i =>
    exact ⟨hpass.trans h.1, h.2.1, fun l hl => (h.2.2.1 l hl).mono hq hk,
      fun hkeys => hk i (h.2.2.2.1 hkeys), h.2.2.2.2⟩
  | calculateTopk i =>
    exact ⟨hpass.trans h.1, h.2.1, fun l hl => (h.2.2.1 l hl).mono hq hk,
      h.2.2.2.1.mono hq hk, h.2.2.2.2⟩
  | resetReady | resetQ _ | resetPre | resetK _ | resetNeedTopk | resetNeedPre => exact h.elim

theorem ResetOk.resets {pc : CalcPc} (h : ResetOk last s topk keys pc) : pc.resets = true := by
  cases pc with
  | resetReady | resetQ _ | resetPre | resetK _ | resetNeedTopk | resetNeedPre => rfl
  | _ => exact h.elim

theorem PassOk.not_resets {pc : CalcPc} (h : PassOk last s k topk keys pc) : pc.resets = false := by
  cases pc with
  | resetReady | resetQ _ | resetPre | resetK _ | resetNeedTopk | resetNeedPre => exact h.elim
  | _ => rfl

/-! ## The queue -/

theorem Common.query_step (h : Common last k rest s) (hr : r ∈ s.coming last)
    (hloc : r.locations ≠ []) : r ∈ rest ∧ r.step = k := by
  obtain ⟨later, hcoming, hlater⟩ := h.coming
  rw [hcoming] at hr
  rcases List.mem_append.mp hr with hr | hr
  · exact ⟨hr, h.query r hr hloc⟩
  · exact absurd (hlater.isKey r hr) hloc

theorem Common.head (h : Common last k rest s) (hreq : s.copyPc.req = some r) :
    (∃ rest', rest = r :: rest') ∨ rest = [] ∧ ∃ later, s.coming last = r :: later ∧
      KeySteps last (r :: later) := by
  obtain ⟨later, hcoming, hlater⟩ := h.coming
  have hfirst : s.coming last = r :: (s.copyQueue ++ s.mainPc.ahead last s.decodeStep) := by
    unfold State.coming
    rw [hreq]
    rfl
  rw [hfirst] at hcoming
  cases rest with
  | cons r' rest' =>
    obtain ⟨rfl, -⟩ := List.cons.inj hcoming
    exact .inl ⟨rest', rfl⟩
  | nil =>
    rw [List.nil_append] at hcoming
    exact .inr ⟨rfl, _, hfirst, hcoming ▸ hlater⟩

theorem Common.head_query (h : Common last k rest s) (hreq : s.copyPc.req = some r)
    (hloc : r.locations ≠ []) : ∃ rest', rest = r :: rest' := by
  rcases h.head hreq with hrest | ⟨-, later, -, hlater⟩
  · exact hrest
  · exact absurd (hlater.isKey r List.mem_cons_self) hloc

theorem Common.push {reqs : List CopyInfo} (h : Common last k rest s)
    (hmain : s.mainPc = .forward (r :: reqs)) :
    Common last k rest { s.addCopyReq r with mainPc := .forward reqs } := by
  have hsame : State.coming last { s.addCopyReq r with mainPc := .forward reqs } =
      s.coming last := by
    unfold State.coming State.addCopyReq
    rw [hmain]
    simp only [MainPc.ahead, List.append_assoc, List.singleton_append]
  have hmem : r ∈ s.coming last := by
    unfold State.coming
    rw [hmain]
    exact List.mem_append_right _ List.mem_cons_self
  refine { h with coming := hsame ▸ h.coming, rows := fun r' hr' i hi => ?_ }
  show update s.gsaQCache r.layerId _ r'.layerId i = r'.step
  have hloc' : r'.locations ≠ [] := List.ne_nil_of_length_pos (Nat.zero_lt_of_lt hi)
  have hr'' : r' ∈ s.copyPc.req.toList ++ s.copyQueue ∨ r' = r := by
    rcases List.mem_append.mp hr' with hr' | hr'
    · exact .inl (List.mem_append_left _ hr')
    · rcases List.mem_append.mp hr' with hr' | hr'
      · exact .inl (List.mem_append_right _ hr')
      · exact .inr (List.mem_singleton.mp hr')
  have hmem' : r' ∈ s.coming last := by
    rcases hr'' with hr' | rfl
    · exact List.mem_append_left _ hr'
    · exact hmem
  by_cases hlayer : r'.layerId = r.layerId
  · rw [hlayer, update_self]
    split_ifs with hlt
    · have hloc := List.ne_nil_of_length_pos (Nat.zero_lt_of_lt hlt)
      rw [(h.query_step hmem hloc).2, (h.query_step hmem' hloc').2]
    · rcases hr'' with hr' | rfl
      · rw [← hlayer]
        exact h.rows r' hr' i hi
      · exact absurd hi hlt
  · rw [update_of_ne hlayer]
    rcases hr'' with hr' | rfl
    · exact h.rows r' hr' i hi
    · exact absurd rfl hlayer

theorem Common.pop {copyQueue : List CopyInfo} (h : Common last k rest s)
    (hpc : s.copyPc = .idle) (hqueue : s.copyQueue = r :: copyQueue) :
    Common last k rest { s with copyQueue := copyQueue, copyPc := .popped r } := by
  have hsame : [r] ++ copyQueue = s.copyPc.req.toList ++ s.copyQueue := by
    rw [hpc, hqueue]
    rfl
  refine { h with coming := ?_, rows := ?_, copyPc := trivial }
  · have hcoming := h.coming
    unfold State.coming at hcoming
    rw [← hsame] at hcoming
    exact hcoming
  · have hrows := h.rows
    rw [← hsame] at hrows
    exact hrows

theorem Common.setCopyPc (h : Common last k rest s) (pc : CopyPc) (hreq : s.copyPc.req = pc.req)
    (hok : pc.Ok) : Common last k rest { s with copyPc := pc } := by
  refine { h with coming := ?_, rows := ?_, copyPc := hok }
  · have hcoming := h.coming
    unfold State.coming at hcoming
    rw [hreq] at hcoming
    exact hcoming
  · have hrows := h.rows
    rw [hreq] at hrows
    exact hrows

theorem Common.finish (h : Common last k (r :: rest) s) (hreq : s.copyPc.req = some r) :
    Common last k rest { s with copyPc := .idle } := by
  obtain ⟨later, hcoming, hlater⟩ := h.coming
  unfold State.coming at hcoming
  rw [hreq] at hcoming
  refine { h with
    coming := ⟨later, (List.cons.inj hcoming).2, hlater⟩
    query := fun r' hr' => h.query r' (List.mem_cons_of_mem _ hr')
    rows := fun r' hr' => h.rows r' (List.mem_append_right _ hr')
    copyPc := trivial }

theorem Common.next (h : Common last k [] s) (hreq : s.copyPc.req = some r) : ∃ step,
    r = copyK step 0 ∧
      Common last step (upperRequests last false true [] step) { s with copyPc := .idle } := by
  rcases h.head hreq with ⟨_, hnil⟩ | ⟨-, later, hcoming, hlater⟩
  · cases hnil
  · obtain ⟨step, later', rfl, rfl, hlater'⟩ := hlater.cons
    unfold State.coming at hcoming
    rw [hreq] at hcoming
    refine ⟨step, rfl, { h with
      coming := ⟨later', (List.cons.inj hcoming).2, hlater'⟩
      query := fun r hr hloc => ?_
      rows := fun r' hr' => h.rows r' (List.mem_append_right _ hr')
      copyPc := trivial }⟩
    obtain ⟨layer, -, hr⟩ := List.mem_flatMap.mp hr
    rcases mem_layerRequests.mp hr with ⟨hfalse, -⟩ | ⟨-, rfl⟩
    · cases hfalse
    · exact absurd rfl hloc

end UnifiedCache.Gsa.CalKpreAndTopk
