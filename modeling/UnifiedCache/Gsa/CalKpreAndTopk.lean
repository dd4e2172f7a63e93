import UnifiedCache.Lib.Machine
import Mathlib.Logic.Function.Basic

/-!
# The hand-over of top-k requests in GSA

For a decode step the main thread sets the parameters of a top-k and pushes the queries and the keys
of the layers. The copy thread takes them from the queue and makes the layers ready; the calculate
thread runs passes over the layers. The flags that the three share are written partly with
`m_calLock` and partly without it.

A tensor is known by the decode step whose values it has. What is only there to tell what has happened
says so.
-/

open Lib

namespace UnifiedCache.Gsa.CalKpreAndTopk

/-- What a decode step brings. -/
structure Decode where
  /-- The query rows of the requests of the batch; -1 for a request without GSA. -/
  locations : List Int
  /-- There are key blocks to compute: `calc_block_table` is not empty. -/
  isCalKpre : Bool
  repreSlotMapping : List (List Nat)
  topkLens : List Nat
deriving DecidableEq

/-- `cal_topk_id`. -/
def calTopkId (locations : List Int) : List Nat :=
  (List.range locations.length).filter fun i => locations[i]?.any (· ≠ -1)

/-- `is_decode`. -/
def isDecode (locations : List Int) : List Bool := locations.map (· ≠ -1)

/-- `CopyInfo`. The tensor of a query request is the layer of `gsa_q_cache`. -/
structure CopyInfo where
  needCalKpre : Bool
  layerId : Nat
  /-- Empty for keys. -/
  locations : List Int
  /-- The decode step that it is of. -/
  step : Nat
deriving DecidableEq

/-- The request of `copy_q`. -/
def copyQ (isCalKpre : Bool) (locations : List Int) (step layer : Nat) : CopyInfo :=
  ⟨isCalKpre, layer, locations, step⟩

/-- The request of `copy_k`. -/
def copyK (step layer : Nat) : CopyInfo := ⟨true, layer, [], step⟩

/-- The requests of a decode step for a layer: the query, then the key. -/
def layerRequests (isTopkCal isCalKpre : Bool) (locations : List Int) (step layer : Nat) :
    List CopyInfo :=
  (if isTopkCal then [copyQ isCalKpre locations step layer] else []) ++
    if isCalKpre then [copyK step layer] else []

/-- The requests of a decode step for the layers in order. -/
def requests (last : Nat) (isTopkCal isCalKpre : Bool) (locations : List Int) (step : Nat) :
    List CopyInfo :=
  (List.range (last + 1)).flatMap (layerRequests isTopkCal isCalKpre locations step)

/-- Where the main thread is. -/
inductive MainPc where
  | setCommonParam (d : Decode)
  | setTopkParam (d : Decode)
  /-- In `SetTopkParam`, `m_needCalTopk` is written. -/
  | setRepreSlotMapping (d : Decode)
  | setTopkCache (d : Decode)
  /-- In the layers, with these requests to push; with none the decode step is over. -/
  | forward (reqs : List CopyInfo)
deriving DecidableEq

/-- Where the copy thread is. -/
inductive CopyPc where
  | idle
  | popped (r : CopyInfo)
  | copying (r : CopyInfo)
  /-- Before it reads `m_needCalPre`. -/
  | setTopkDataReady (r : CopyInfo)
  /-- Before it takes `m_calLock`. -/
  | locking (r : CopyInfo)
  | storing (r : CopyInfo)
deriving DecidableEq

/-- The request that the copy thread has taken. -/
def CopyPc.req : CopyPc → Option CopyInfo
  | .idle => none
  | .popped r | .copying r | .setTopkDataReady r | .locking r | .storing r => some r

/-- Where the calculate thread is. It has `m_calLock` when it does not wait. -/
inductive CalcPc where
  | waiting
  /-- In `CalForOneLayer`, before it reads `m_needCalPre`. -/
  | layer (i : Nat)
  | waitKReady (i : Nat)
  /-- Before it reads `m_needCalTopk`. -/
  | layerTopk (i : Nat)
  | waitQReady (i : Nat)
  | calculateTopk (i : Nat)
  | storeFlag (i : Nat)
  /-- In `ResetReady`, before it reads `m_needCalTopk`. -/
  | resetReady
  | resetQ (i : Nat)
  /-- Before it reads `m_needCalPre`. -/
  | resetPre
  | resetK (i : Nat)
  | resetNeedTopk
  | resetNeedPre
deriving DecidableEq

/-- The calculate thread is in `ResetReady`. -/
def CalcPc.resets : CalcPc → Bool
  | .resetReady | .resetQ _ | .resetPre | .resetK _ | .resetNeedTopk | .resetNeedPre => true
  | _ => false

/-- A run of `CalculateTopk`. -/
structure TopkRun where
  /-- The decode step of the last `SetTopkParam`. -/
  step : Nat
  layer : Nat
  /-- The decode steps that the query rows are of. -/
  queries : List Nat
  isDecode : List Bool
  repreSlotMapping : List (List Nat)
  topkCache : Nat
  topkLens : List Nat
deriving DecidableEq

/-- The three threads. -/
structure State where
  mainPc : MainPc
  copyPc : CopyPc
  calcPc : CalcPc
  copyQueue : List CopyInfo
  needCalTopk : Bool
  needCalPre : Bool
  kReady : Nat → Bool
  qReady : Nat → Bool
  topkFlag : Nat → Bool
  /-- `gsa_q_cache` by layer and row. -/
  gsaQCache : Nat → Nat → Nat
  /-- `m_qCache` by layer and row. -/
  qCache : Nat → Nat → Nat
  calTopkIdx : List Nat
  isDecode : List Bool
  repreSlotMapping : List (List Nat)
  topkCache : Nat
  topkLens : List Nat
  /-- How many decode steps have begun. -/
  decodeStep : Nat
  /-- The calls of `SetTopkParam`, the last one first. -/
  asked : List (Nat × Decode)
  /-- The calls after which `IsCalculateFinish` has returned true with their requests of layer 0
  taken. -/
  finished : List (Nat × Decode)
  /-- The runs of `CalculateTopk`. -/
  runs : List TopkRun
  /-- The decode steps that the flags have been set for. -/
  kStep : Nat → Nat
  qStep : Nat → Nat
  /-- The decode step whose layer 0 was made ready last. -/
  ready : Nat
  /-- The decode step that the pass is for. -/
  pass : Nat
  /-- The flags that passes have taken: of which decode step, by the pass of which one. -/
  consumed : List (Nat × Nat)

/-- Before the first decode step. -/
def State.start : State where
  mainPc := .forward []
  copyPc := .idle
  calcPc := .waiting
  copyQueue := []
  needCalTopk := false
  needCalPre := false
  kReady := fun _ => false
  qReady := fun _ => false
  topkFlag := fun _ => true
  gsaQCache := fun _ _ => 0
  qCache := fun _ _ => 0
  calTopkIdx := []
  isDecode := []
  repreSlotMapping := []
  topkCache := 0
  topkLens := []
  decodeStep := 0
  asked := []
  finished := []
  runs := []
  kStep := fun _ => 0
  qStep := fun _ => 0
  ready := 0
  pass := 0
  consumed := []

namespace State

variable (last : Nat) (s : State)

/-! ## The main thread -/

/-- `IsCalculateFinish`. -/
def isCalculateFinish : Bool := s.topkFlag last

/-- `is_topk_cal` and `atb_gsa_enable`: a top-k is wanted, and there is a request with GSA. -/
def isTopkCal (wanted : Bool) (d : Decode) : Bool :=
  s.isCalculateFinish last && wanted && d.locations.any (· ≠ -1)

/-- The requests of a decode step for layer 0 have been pushed and taken from the queue. -/
def taken (step : Nat) : Bool := s.copyQueue.all fun r => r.step ≠ step || r.layerId ≠ 0

/-- `execute_begin`. -/
def executeBegin (wanted : Bool) (d : Decode) : Option State :=
  match s.mainPc with
  | .forward [] =>
    some { s with
      decodeStep := s.decodeStep + 1
      finished := s.finished ++
        if s.isCalculateFinish last then s.asked.head?.toList.filter fun x => s.taken x.1 else []
      mainPc :=
        if s.isTopkCal last wanted d then .setCommonParam d
        else .forward (requests last false d.isCalKpre d.locations (s.decodeStep + 1)) }
  | _ => none

/-- `AddCopyReq`; before it, `copy_q` copies the queries of the rows to `gsa_q_cache`. -/
def addCopyReq (r : CopyInfo) : State :=
  { s with
    gsaQCache := Function.update s.gsaQCache r.layerId fun i =>
      if i < r.locations.length then r.step else s.gsaQCache r.layerId i
    copyQueue := s.copyQueue ++ [r] }

/-- The main thread goes on with a decode step. -/
def goOn : Option State :=
  match s.mainPc with
  | .setCommonParam d =>
    some { s with
      calTopkIdx := calTopkId d.locations
      isDecode := CalKpreAndTopk.isDecode d.locations
      mainPc := .setTopkParam d }
  | .setTopkParam d =>
    some { s with
      needCalTopk := true
      asked := (s.decodeStep, d) :: s.asked
      mainPc := .setRepreSlotMapping d }
  | .setRepreSlotMapping d =>
    some { s with repreSlotMapping := d.repreSlotMapping, mainPc := .setTopkCache d }
  | .setTopkCache d =>
    some { s with
      topkCache := s.decodeStep
      topkLens := d.topkLens
      mainPc := .forward (requests last true d.isCalKpre d.locations s.decodeStep) }
  | .forward [] => none
  | .forward (r :: reqs) => some { s.addCopyReq r with mainPc := .forward reqs }

/-! ## The copy thread -/

/-- Sets the flag of a layer for keys. -/
def storeKReady (r : CopyInfo) : State :=
  { s with
    kReady := Function.update s.kReady r.layerId true
    kStep := Function.update s.kStep r.layerId r.step
    copyPc := .idle }

/-- Sets the flag of a layer for the query. -/
def storeQReady (r : CopyInfo) : State :=
  { s with
    qReady := Function.update s.qReady r.layerId true
    qStep := Function.update s.qStep r.layerId r.step
    copyPc := .idle }

/-- With `m_calLock`: clears the flags of the layers. -/
def clearTopkFlag (r : CopyInfo) : State :=
  { s with topkFlag := fun _ => false, ready := r.step }

/-- `SetKpreDataReady`. -/
def setKpreDataReady (r : CopyInfo) : Option State :=
  if r.layerId = 0 then
    if s.calcPc = .waiting then
      some ({ s with needCalPre := true }.clearTopkFlag r |>.storeKReady r)
    else none
  else some (s.storeKReady r)

/-- The copy of the rows of a layer. -/
def copyRows (r : CopyInfo) : State :=
  { s with
    qCache := Function.update s.qCache r.layerId fun i =>
      if r.locations[i]?.any (· ≠ -1) then s.gsaQCache r.layerId i else s.qCache r.layerId i }

/-- One step of `CopyData`. -/
def copyData : Option State :=
  match s.copyPc with
  | .idle =>
    match s.copyQueue with
    | [] => none
    | r :: copyQueue => some { s with copyQueue := copyQueue, copyPc := .popped r }
  | .popped r =>
    if r.locations = [] then s.setKpreDataReady r
    else
      some { s with
        needCalPre := if r.layerId = 0 then r.needCalKpre else s.needCalPre
        copyPc := .copying r }
  | .copying r => some { s.copyRows r with copyPc := .setTopkDataReady r }
  | .setTopkDataReady r =>
    some { s with copyPc := if !s.needCalPre && r.layerId = 0 then .locking r else .storing r }
  | .locking r => if s.calcPc = .waiting then some ((s.clearTopkFlag r).storeQReady r) else none
  | .storing r => some (s.storeQReady r)

/-! ## The calculate thread -/

/-- `CheckDataStatus`. -/
def checkDataStatus : Bool := if s.needCalPre then s.kReady 0 else s.qReady 0

/-- The pass takes a flag that was set for a decode step. -/
def consume (step : Nat) : State := { s with consumed := s.consumed ++ [(step, s.pass)] }

/-- The run of `CalculateTopk` for a layer. -/
def topkRun (layer : Nat) : TopkRun where
  step := (s.asked.head?.map Prod.fst).getD 0
  layer := layer
  queries := s.calTopkIdx.map (s.qCache layer)
  isDecode := s.isDecode
  repreSlotMapping := s.repreSlotMapping
  topkCache := s.topkCache
  topkLens := s.topkLens

/-- One step of `Calculate`. -/
def calculate : Option State :=
  match s.calcPc with
  | .waiting =>
    if s.checkDataStatus then
      some ({ s with pass := s.ready, calcPc := .layer 0 }.consume
        (if s.needCalPre then s.kStep 0 else s.qStep 0))
    else none
  | .layer i => some { s with calcPc := if s.needCalPre then .waitKReady i else .layerTopk i }
  | .waitKReady i =>
    if s.kReady i then some { s.consume (s.kStep i) with calcPc := .layerTopk i } else none
  | .layerTopk i => some { s with calcPc := if s.needCalTopk then .waitQReady i else .storeFlag i }
  | .waitQReady i =>
    if s.qReady i then some { s.consume (s.qStep i) with calcPc := .calculateTopk i } else none
  | .calculateTopk i => some { s with runs := s.runs ++ [s.topkRun i], calcPc := .storeFlag i }
  | .storeFlag i =>
    some { s with
      topkFlag := Function.update s.topkFlag i true
      calcPc := if i < last then .layer (i + 1) else .resetReady }
  | .resetReady => some { s with calcPc := if s.needCalTopk then .resetQ 0 else .resetPre }
  | .resetQ i =>
    some { s with
      consumed := s.consumed ++ if s.qReady i then [(s.qStep i, s.pass)] else []
      qReady := Function.update s.qReady i false
      calcPc := if i < last then .resetQ (i + 1) else .resetPre }
  | .resetPre => some { s with calcPc := if s.needCalPre then .resetK 0 else .resetNeedTopk }
  | .resetK i =>
    some { s with
      consumed := s.consumed ++ if s.kReady i then [(s.kStep i, s.pass)] else []
      kReady := Function.update s.kReady i false
      calcPc := if i < last then .resetK (i + 1) else .resetNeedTopk }
  | .resetNeedTopk => some { s with needCalTopk := false, calcPc := .resetNeedPre }
  | .resetNeedPre => some { s with needCalPre := false, calcPc := .waiting }

end State

/-- What happens. -/
inductive Event where
  /-- A decode step begins. -/
  | executeBegin (wanted : Bool) (d : Decode)
  | main
  | copy
  | calculate

/-- One step, with the layers up to `last`. -/
def step (last : Nat) (s : State) : Event → Option State
  | .executeBegin wanted d => s.executeBegin last wanted d
  | .main => s.goOn last
  | .copy => s.copyData
  | .calculate => s.calculate last

/-- The machine of the three threads. -/
def machine (last : Nat) : Machine State Event where
  init s := s = .start
  step := step last

/-! ## The hand-over -/

/-- The run of `CalculateTopk` that a decode step asks for. -/
def Decode.topkRun (d : Decode) (step layer : Nat) : TopkRun where
  step := step
  layer := layer
  queries := (calTopkId d.locations).map fun _ => step
  isDecode := CalKpreAndTopk.isDecode d.locations
  repreSlotMapping := d.repreSlotMapping
  topkCache := step
  topkLens := d.topkLens

/-- After a `SetTopkParam`, `CalculateTopk` has run once for every layer, on the queries of the same
step. -/
def Served (last : Nat) (runs : List TopkRun) (x : Nat × Decode) : Prop :=
  ∀ layer ≤ last, (runs.filter fun r => r.step = x.1 ∧ r.layer = layer) = [x.2.topkRun x.1 layer]

/-- What is promised: a top-k that is finished has been computed, none is dropped, and a pass takes the
flags of its own decode step only. -/
structure HandedOver (last : Nat) (s : State) : Prop where
  finished : ∀ x ∈ s.finished, Served last s.runs x
  notDropped : ∀ x ∈ s.asked, Served last s.runs x ∨ s.needCalTopk = true ∧ s.asked.head? = some x
  consumed : ∀ c ∈ s.consumed, c.1 = c.2

/-- The copy thread has taken the last request for layer 0 of the step that has asked for a top-k,
and has not cleared the flags yet. -/
def State.clearing (s : State) : Bool :=
  s.copyPc.req.any fun r => r.layerId = 0 && s.taken r.step && s.asked.head?.any (·.1 = r.step)

/-- The copy thread is to make layer 0 ready, with `m_calLock`. -/
def State.opens (s : State) : Bool :=
  match s.copyPc with
  | .popped r => r.locations.isEmpty && r.layerId = 0
  | .locking _ => true
  | _ => false

/-- The steps in time: `IsCalculateFinish` does not return true before the flags are cleared for the
step that has asked, a decode step asks for a top-k when no request is on its way and `ResetReady`
is over, and layer 0 is made ready when no pass is due. -/
def InTime (last : Nat) (s : State) : Event → Prop
  | .executeBegin wanted d =>
    (s.isCalculateFinish last = true → s.clearing = false) ∧
      (s.isTopkCal last wanted d = true →
        s.copyPc = .idle ∧ s.copyQueue = [] ∧ s.calcPc.resets = false)
  | .copy => s.opens = true → s.checkDataStatus = false
  | .main | .calculate => True

instance (last : Nat) (s : State) : (e : Event) → Decidable (InTime last s e)
  | .executeBegin wanted d => inferInstanceAs (Decidable (
      (s.isCalculateFinish last = true → s.clearing = false) ∧
        (s.isTopkCal last wanted d = true →
          s.copyPc = .idle ∧ s.copyQueue = [] ∧ s.calcPc.resets = false)))
  | .copy => inferInstanceAs (Decidable (s.opens = true → s.checkDataStatus = false))
  | .main => .isTrue trivial
  | .calculate => .isTrue trivial

end UnifiedCache.Gsa.CalKpreAndTopk
