import UnifiedCache.Esa.ReprePool
import UnifiedCache.Gsa.Proofs.BlocksProofs
import UnifiedCache.Lib.Leases

/-!
# Proofs: the slots of ESA on a worker

The pools and the states agree in every state of every run, whatever layers the worker runs: a state is
made without slots, takes them once, and gives them back when it is replaced or when its request
finishes. Finishing goes over the places of all layers, so it needs a state in each of them.
-/

open Function Lib Lib.BlockCache

namespace UnifiedCache.Esa

variable {η ρ : Type} {cfg : Config} {numSlots total l l' r r' : Nat} {w w' : Worker ρ}
  {st : LayerState ρ} {m : BatchMeta η} {order : List Nat} {repre : Nat → ρ}

/-! ## What holds of the slots -/

/-- The slots of a place. -/
def slotsOf (place : Option (LayerState ρ)) : List Nat := (place.map (·.slots)).getD []

/-- The slots that a request has at a layer. -/
def Worker.owned (w : Worker ρ) (l r : Nat) : List Nat := slotsOf (w.live r l)

/-- The request has taken its slots at the layer. -/
def Worker.Took (w : Worker ρ) (r l : Nat) : Prop := ∃ st, w.live r l = some st ∧ st.step ≠ 0

/-- The slots of a state are numbered from 0 on, and they have the representations of the blocks from the
init window on. -/
structure StateOk (cfg : Config) (data : Nat → ρ) (l : Nat) (st : LayerState ρ) : Prop where
  layerId : st.layerId = l
  relative : st.slotsToRelativeIndexes = st.slots.zipIdx
  start : st.step = 0 → st.slots = []
  length : st.step ≠ 0 → (st.slots.length : Int) = st.sparseRange
  data : st.step ≠ 0 → ∀ i slot, st.slots[i]? = some slot →
    st.blockRepre[cfg.initWindowSz + i]? = some (data slot)

/-- The slots are owned exclusively. -/
structure Worker.Ok (cfg : Config) (numSlots : Nat) (w : Worker ρ) : Prop where
  exact : ∀ l, Leases.Exact (Finset.range numSlots) (w.layerPools l).freeSlots
    (w.layerPools l).allocated (w.owned l)
  states : ∀ r l st, w.live r l = some st → StateOk cfg (w.data l) l st

/-- Finishing a request does not raise and returns its slots. -/
def Worker.FinishOk (w : Worker ρ) : Prop :=
  ∀ r, ∃ w', w.requestFinishedInWorker r = some w' ∧ w'.reqStates r = none ∧
    ∀ l, w'.layerPools l = (w.layerPools l).free (w.owned l r)

/-! ## One place changes -/

variable {states : List (Option (LayerState ρ))} {place : Option (LayerState ρ)}

theorem live_update {pools : Nat → ReprePool} {data : Nat → Nat → ρ}
    (hstates : ∀ l', states[l']?.join = w.live r l') (hl : l < states.length) (r' l' : Nat) :
    Worker.live ⟨pools, data, update w.reqStates r (some (states.set l place))⟩ r' l' =
      if r' = r ∧ l' = l then place else w.live r' l' := by
  unfold Worker.live
  dsimp only
  by_cases hr : r' = r
  · subst hr
    rw [update_self, Option.bind_some]
    by_cases hl' : l' = l
    · subst hl'
      rw [if_pos ⟨rfl, rfl⟩, List.getElem?_set_self hl]
      rfl
    · rw [if_neg fun h => hl' h.2, List.getElem?_set_ne (Ne.symm hl'), hstates l']
      rfl
  · rw [if_neg fun h => hr h.1, update_of_ne hr]

theorem live_known {pools : Nat → ReprePool} {data : Nat → Nat → ρ}
    (hstates : ∀ l', states[l']?.join = w.live r l') (r' l' : Nat) :
    Worker.live ⟨pools, data, update w.reqStates r (some states)⟩ r' l' = w.live r' l' := by
  unfold Worker.live
  dsimp only
  by_cases hr : r' = r
  · subst hr
    rw [update_self, Option.bind_some, hstates]
    rfl
  · rw [update_of_ne hr]

theorem owned_update
    (hlive : ∀ r' l', w'.live r' l' = if r' = r ∧ l' = l then place else w.live r' l') (l' : Nat) :
    w'.owned l' =
      if l' = l then update (w.owned l) r (slotsOf place) else w.owned l' := by
  funext r'
  by_cases hl : l' = l
  · subst hl
    rw [if_pos rfl]
    by_cases hr : r' = r
    · subst hr
      unfold Worker.owned
      rw [update_self, hlive, if_pos ⟨rfl, rfl⟩]
    · rw [update_of_ne hr]
      unfold Worker.owned
      rw [hlive, if_neg fun h => hr h.1]
  · rw [if_neg hl]
    unfold Worker.owned
    rw [hlive, if_neg fun h => hl h.2]

/-- **Step lemma.** One place and one layer change. -/
theorem Worker.Ok.change (h : w.Ok cfg numSlots) (place : Option (LayerState ρ))
    (hlive : ∀ r' l', w'.live r' l' = if r' = r ∧ l' = l then place else w.live r' l')
    (hpools : ∀ l' ≠ l, w'.layerPools l' = w.layerPools l')
    (hdata : ∀ l' ≠ l, w'.data l' = w.data l')
    (hexact : Leases.Exact (Finset.range numSlots) (w'.layerPools l).freeSlots
      (w'.layerPools l).allocated (update (w.owned l) r (slotsOf place)))
    (hplace : ∀ st, place = some st → StateOk cfg (w'.data l) l st)
    (hothers : ∀ r' ≠ r, ∀ st, w.live r' l = some st → StateOk cfg (w'.data l) l st) :
    w'.Ok cfg numSlots := by
  refine ⟨fun l' => ?_, fun r' l' st hst => ?_⟩
  · rw [owned_update hlive]
    by_cases hl : l' = l
    · subst hl
      rw [if_pos rfl]
      exact hexact
    · rw [if_neg hl, hpools l' hl]
      exact h.exact l'
  · rw [hlive] at hst
    by_cases hl : l' = l
    · subst hl
      by_cases hr : r' = r
      · rw [if_pos ⟨hr, rfl⟩] at hst
        exact hplace st hst
      · rw [if_neg fun h => hr h.1] at hst
        exact hothers r' hr st hst
    · rw [if_neg fun h => hl h.2] at hst
      rw [hdata l' hl]
      exact h.states r' l' st hst

theorem live_of_reqStates (hstates : w.reqStates r = some states) (hplace : states[l]? = some place) :
    w.live r l = place := by
  unfold Worker.live
  rw [hstates, Option.bind_some, hplace]
  rfl

theorem join_of_reqStates (hstates : w.reqStates r = some states) (l : Nat) :
    states[l]?.join = w.live r l := by
  unfold Worker.live
  rw [hstates, Option.bind_some]

/-! ## The operations -/

theorem Worker.Ok.dropPreempted (h : w.Ok cfg numSlots) (hw : w.dropPreempted m l = some w') :
    w'.Ok cfg numSlots := by
  unfold Worker.dropPreempted at hw
  by_cases hpreempt : m.isPreempt = true
  · rw [if_pos hpreempt] at hw
    obtain ⟨states, hstates, hw⟩ := Option.bind_eq_some_iff.mp hw
    obtain ⟨place, hplace, hw⟩ := Option.bind_eq_some_iff.mp hw
    obtain ⟨st, rfl, hw⟩ := Option.bind_eq_some_iff.mp hw
    obtain rfl := Option.some.inj hw
    have hst := live_of_reqStates hstates hplace
    have hl : st.layerId = l := (h.states _ _ _ hst).layerId
    obtain ⟨hlength, _⟩ := List.getElem?_eq_some_iff.mp hplace
    have howned : w.owned l m.requestId = st.slots := by
      unfold Worker.owned slotsOf
      rw [hst]
      rfl
    refine h.change none (live_update (join_of_reqStates hstates) hlength) ?_
      (fun _ _ => rfl) ?_ (fun st hst => by cases hst)
      (fun r' _ st hst => h.states r' l st hst)
    · intro l' hne
      show update w.layerPools st.layerId _ l' = _
      rw [update_of_ne (by rw [hl]; exact hne)]
    · show Leases.Exact _ (update w.layerPools st.layerId _ l).freeSlots
        (update w.layerPools st.layerId _ l).allocated _
      rw [hl, update_self, ← howned]
      exact (h.exact l).release m.requestId
  · rw [if_neg hpreempt] at hw
    obtain rfl := Option.some.inj hw
    exact h

theorem stateOk_new (data : Nat → ρ) : StateOk cfg data l (.new l) where
  layerId := rfl
  relative := rfl
  start _ := rfl
  length h := absurd rfl h
  data h := absurd rfl h

theorem join_getD (w : Worker ρ) (r total l : Nat) :
    ((w.reqStates r).getD (List.replicate total none))[l]?.join = w.live r l := by
  unfold Worker.live
  cases w.reqStates r with
  | none =>
    rw [Option.getD_none, Option.bind_none, List.getElem?_replicate]
    split_ifs <;> rfl
  | some states => rfl

theorem Worker.Ok.getOrCreate (h : w.Ok cfg numSlots)
    (hw : w.getOrCreateLayerwiseReqState total m l = some w') : w'.Ok cfg numSlots := by
  unfold Worker.getOrCreateLayerwiseReqState at hw
  obtain ⟨w₁, hdrop, hw⟩ := Option.bind_eq_some_iff.mp hw
  obtain ⟨place, hplace, hw⟩ := Option.bind_eq_some_iff.mp hw
  obtain rfl := Option.some.inj hw
  have h₁ := h.dropPreempted hdrop
  have hjoin := join_getD w₁ m.requestId total
  obtain ⟨hlength, _⟩ := List.getElem?_eq_some_iff.mp hplace
  have hlive : w₁.live m.requestId l = place := by
    rw [← hjoin, hplace]
    rfl
  cases place with
  | none =>
    rw [Option.isNone_none, if_pos rfl]
    let fresh : LayerState ρ := .new l
    refine h₁.change (some fresh) (live_update hjoin hlength) (fun _ _ => rfl)
      (fun _ _ => rfl) ?_ ?_ (fun r' _ st hst => h₁.states r' l st hst)
    · have hsame : update (w₁.owned l) m.requestId (slotsOf (some fresh)) =
          w₁.owned l := by
        refine update_eq_self_iff.mpr ?_
        unfold Worker.owned
        rw [hlive]
        rfl
      rw [hsame]
      exact h₁.exact l
    · intro st hst
      obtain rfl := Option.some.inj hst
      exact stateOk_new _
  | some st =>
    rw [Option.isNone_some, if_neg Bool.false_ne_true]
    refine h₁.change (some st) (r := m.requestId) (l := l) ?_ (fun _ _ => rfl)
      (fun _ _ => rfl) ?_ ?_ (fun r' _ st hst => h₁.states r' l st hst)
    · intro r' l'
      rw [live_known hjoin]
      split_ifs with hplace
      · rw [hplace.1, hplace.2, hlive]
      · rfl
    · have hsame : update (w₁.owned l) m.requestId (slotsOf (some st)) = w₁.owned l := by
        refine update_eq_self_iff.mpr ?_
        unfold Worker.owned
        rw [hlive]
      rw [hsame]
      exact h₁.exact l
    · intro st' hst'
      obtain rfl := Option.some.inj hst'
      exact h₁.states _ _ _ hlive

/-- A state stays, unless it is given up. -/
theorem getOrCreate_live (hw : w.getOrCreateLayerwiseReqState total m l = some w')
    (hst : w.live r' l' = some st) (hkeep : r' = m.requestId → l' = l → m.isPreempt = false) :
    w'.live r' l' = some st := by
  unfold Worker.getOrCreateLayerwiseReqState at hw
  obtain ⟨w₁, hdrop, hw⟩ := Option.bind_eq_some_iff.mp hw
  obtain ⟨place, hplace, hw⟩ := Option.bind_eq_some_iff.mp hw
  obtain rfl := Option.some.inj hw
  have hst₁ : w₁.live r' l' = some st := by
    unfold Worker.dropPreempted at hdrop
    split_ifs at hdrop with hpreempt
    · obtain ⟨states, hstates, hdrop⟩ := Option.bind_eq_some_iff.mp hdrop
      obtain ⟨_, hold, hdrop⟩ := Option.bind_eq_some_iff.mp hdrop
      obtain ⟨old, -, hdrop⟩ := Option.bind_eq_some_iff.mp hdrop
      obtain rfl := Option.some.inj hdrop
      rw [live_update (join_of_reqStates hstates) (List.getElem?_eq_some_iff.mp hold).1, if_neg, hst]
      rintro ⟨hr, hl⟩
      rw [hkeep hr hl] at hpreempt
      cases hpreempt
    · rw [← Option.some.inj hdrop, hst]
  have hjoin := join_getD w₁ m.requestId total
  obtain ⟨hlength, _⟩ := List.getElem?_eq_some_iff.mp hplace
  cases place with
  | none =>
    rw [Option.isNone_none, if_pos rfl, live_update hjoin hlength, if_neg, hst₁]
    rintro ⟨rfl, rfl⟩
    rw [← hjoin, hplace] at hst₁
    cases hst₁
  | some old =>
    rw [Option.isNone_some, if_neg Bool.false_ne_true, live_known hjoin, hst₁]

theorem allocate_eq_some {pool pool' : ReprePool} {n : Int} {newSlots : List Nat}
    (h : pool.allocate order n = some (pool', newSlots)) :
    newSlots.Nodup ∧ (∀ slot ∈ newSlots, slot ∈ pool.freeSlots) ∧
      (0 ≤ n → (newSlots.length : Int) = n) ∧
      pool' = ⟨pool.freeSlots \ newSlots.toFinset, pool.allocated ∪ newSlots.toFinset⟩ := by
  unfold ReprePool.allocate at h
  rw [Option.ite_none_right_eq_some] at h
  obtain ⟨⟨hnodup, hset, hcard⟩, h⟩ := h
  obtain ⟨rfl, rfl⟩ := Prod.mk.inj (Option.some.inj h)
  have hsub : (Gsa.Blocks.slice order 0 n).Sublist order :=
    (List.drop_sublist _ _).trans (List.take_sublist _ _)
  refine ⟨hnodup.sublist hsub, fun slot hslot => ?_, fun hn => ?_, rfl⟩
  · rw [← hset, List.mem_toFinset]
    exact hsub.subset hslot
  · rw [← hset, List.toFinset_card_of_nodup hnodup] at hcard
    obtain ⟨k, rfl⟩ := Int.eq_ofNat_of_zero_le hn
    rw [Gsa.Blocks.slice_zero, List.length_take]
    omega

theorem foldl_set_zipIdx {slots : List Nat} (hnodup : slots.Nodup) :
    (slots.zipIdx 0).foldl (fun d p => Dict.set d p.1 p.2) [] = slots.zipIdx := by
  have hkeys : (([] ++ slots.zipIdx 0).map Prod.fst).Nodup := by
    rw [List.nil_append, List.zipIdx_map_fst]
    exact hnodup
  rw [Dict.foldl_set_of_nodup hkeys, List.nil_append]

theorem slice_blocks {ids : List Nat} {n : Int} (hn : 0 ≤ n) (hids : cfg.initWindowSz + n ≤ ids.length) :
    Gsa.Blocks.slice ids cfg.initWindowSz (cfg.initWindowSz + n) =
      (ids.drop cfg.initWindowSz).take n.toNat := by
  obtain ⟨k, rfl⟩ := Int.eq_ofNat_of_zero_le hn
  have hstop : ((cfg.initWindowSz : Int) + (k : Nat)) = ((cfg.initWindowSz + k : Nat) : Int) := by omega
  rw [hstop, Gsa.Blocks.slice_natCast, List.drop_take, Int.toNat_natCast,
    Nat.add_sub_cancel_left]

theorem sparseRange_le (m : ReqMeta η) (hlast : m.isLastChunk = true)
    (hfits : m.numComputedTokens + m.numScheduledTokens ≤ m.vllmBlockIds.length * cfg.blockSize) :
    cfg.initWindowSz + Sparse.getSparseRange cfg.initWindowSz cfg.localWindowSz m.numPromptTokens
      cfg.blockSize ≤ m.vllmBlockIds.length := by
  have htokens : m.numTokens ≤ m.numComputedTokens + m.numScheduledTokens := of_decide_eq_true hlast
  have hblocks : (m.numPromptTokens + cfg.blockSize - 1) / cfg.blockSize ≤ m.vllmBlockIds.length := by
    refine (Nat.div_le_iff_le_mul cfg.blockSize_pos).mpr ?_
    unfold ReqMeta.numTokens at htokens
    omega
  unfold Sparse.getSparseRange
  dsimp only
  omega

theorem blockRepreData_spec {st' : LayerState ρ} {pool : ReprePool} {data : Nat → ρ} {m : ReqMeta η}
    (hst : StateOk cfg (w.data l) l st) (hstep : st.step = 0) (hlast : m.isLastChunk = true)
    (hn : 0 ≤ Sparse.getSparseRange cfg.initWindowSz cfg.localWindowSz m.numPromptTokens
      cfg.blockSize)
    (hfits : m.numComputedTokens + m.numScheduledTokens ≤ m.vllmBlockIds.length * cfg.blockSize)
    (h : w.blockRepreData cfg st m order repre = some (st', pool, data)) :
    st'.layerId = l ∧ st'.step = 0 ∧ st'.slots.Nodup ∧
      (∀ slot ∈ st'.slots, slot ∈ (w.layerPools l).freeSlots) ∧
      pool = ⟨(w.layerPools l).freeSlots \ st'.slots.toFinset,
        (w.layerPools l).allocated ∪ st'.slots.toFinset⟩ ∧
      (∀ slot ∉ st'.slots, data slot = w.data l slot) ∧
      StateOk cfg data l { st' with step := st'.step + 1 } := by
  unfold Worker.blockRepreData at h
  dsimp only at h
  rw [Option.ite_none_left_eq_some] at h
  obtain ⟨-, h⟩ := h
  obtain ⟨⟨pool₁, newSlots⟩, halloc, h⟩ := Option.bind_eq_some_iff.mp h
  obtain ⟨data₁, hput, h⟩ := Option.bind_eq_some_iff.mp h
  have hempty := hst.start hstep
  have hmap : st.slotsToRelativeIndexes = [] := by rw [hst.relative, hempty]; rfl
  rw [hst.layerId] at halloc hput
  obtain ⟨hnodup, hfree, hlength, hpool⟩ := allocate_eq_some halloc
  rw [hempty, hmap, List.length_nil, foldl_set_zipIdx hnodup, List.nil_append] at h
  obtain ⟨rfl, hrest⟩ := Prod.mk.inj (Option.some.inj h)
  obtain ⟨rfl, rfl⟩ := Prod.mk.inj hrest
  have hothers : ∀ slot ∉ newSlots, data₁ slot = w.data l slot := by
    intro slot hslot
    unfold indexPut at hput
    split_ifs at hput
    · rw [← Option.some.inj hput, writeAll_of_notMem hslot]
    · rw [← Option.some.inj hput, writeAll_of_notMem hslot]
  refine ⟨hst.layerId, hstep, hnodup, hfree, hpool, hothers, hst.layerId, rfl,
    fun hzero => absurd hzero (Nat.succ_ne_zero _), fun _ => hlength hn, fun _ i slot hi => ?_⟩
  -- The blocks are as many as the slots, so that nothing is broadcast.
  have hle := sparseRange_le m hlast hfits
  rw [slice_blocks hn hle] at hput
  have hdump : (((m.vllmBlockIds.drop cfg.initWindowSz).take
      (Sparse.getSparseRange cfg.initWindowSz cfg.localWindowSz m.numPromptTokens
        cfg.blockSize).toNat).map repre).length = newSlots.length := by
    have hslots := hlength hn
    rw [List.length_map, List.length_take, List.length_drop]
    omega
  rw [indexPut_eq hdump] at hput
  have hvalue : some (writeAll (w.data l) newSlots _ slot) = _ := writeAll_getElem? hnodup hdump hi
  have hlt : i < newSlots.length := (List.getElem?_eq_some_iff.mp hi).1
  have hslots := hlength hn
  rw [← Option.some.inj hput, hvalue, List.map_take, List.map_drop,
    List.getElem?_take_of_lt (by omega), List.getElem?_drop]

theorem StateOk.tick {data : Nat → ρ} (h : StateOk cfg data l st) (hstep : st.step ≠ 0) :
    StateOk cfg data l { st with step := st.step + 1 } where
  layerId := h.layerId
  relative := h.relative
  start hzero := absurd hzero (Nat.succ_ne_zero _)
  length _ := h.length hstep
  data _ := h.data hstep

theorem BatchMeta.WindowsFit.range_nonneg (h : m.WindowsFit cfg) :
    0 ≤ Sparse.getSparseRange cfg.initWindowSz cfg.localWindowSz m.numPromptTokens cfg.blockSize := by
  unfold BatchMeta.WindowsFit at h
  rw [Nat.ceilDiv_eq_add_pred_div] at h
  unfold Sparse.getSparseRange
  dsimp only
  omega

theorem Worker.Ok.attentionFinished (h : w.Ok cfg numSlots) (hwindows : m.WindowsFit cfg)
    (hfits : m.Fits cfg ∨ w.Took m.requestId l)
    (hw : w.attentionFinished cfg m l order repre = some w') : w'.Ok cfg numSlots := by
  unfold Worker.attentionFinished at hw
  obtain ⟨states, hstates, hw⟩ := Option.bind_eq_some_iff.mp hw
  obtain ⟨place, hplace, hw⟩ := Option.bind_eq_some_iff.mp hw
  obtain ⟨st, rfl, hbody⟩ := Option.bind_eq_some_iff.mp hw
  have hst := live_of_reqStates hstates hplace
  have hok := h.states _ _ _ hst
  obtain ⟨hlength, _⟩ := List.getElem?_eq_some_iff.mp hplace
  by_cases hwait : st.step = 0 ∧ !m.isLastChunk
  · rw [if_pos hwait] at hbody
    obtain rfl := Option.some.inj hbody
    exact h
  rw [if_neg hwait] at hbody
  by_cases hstep : st.step = 0
  · -- The last chunk.
    have hlast : m.isLastChunk = true := by
      by_contra hnot
      refine hwait ⟨hstep, ?_⟩
      rw [Bool.eq_false_of_not_eq_true hnot]
      rfl
    have hfits : m.Fits cfg := hfits.resolve_right fun ⟨st', hst', hne⟩ => by
      rw [hst] at hst'
      exact hne (Option.some.inj hst' ▸ hstep)
    rw [if_pos hstep] at hbody
    obtain ⟨⟨st', pool, data⟩, hrepre, hlive⟩ := Option.bind_eq_some_iff.mp hbody
    obtain rfl := Option.some.inj hlive
    obtain ⟨hl, -, hnodup, hfree, rfl, hothers, hok'⟩ :=
      blockRepreData_spec hok hstep hlast hwindows.range_nonneg hfits hrepre
    have hempty : w.owned l m.requestId = [] := by
      unfold Worker.owned slotsOf
      rw [hst]
      exact hok.start hstep
    subst hl
    refine h.change (some { st' with step := st'.step + 1 })
      (live_update (join_of_reqStates hstates) hlength) ?_ ?_ ?_ ?_ ?_
    · intro l' hne
      exact update_of_ne hne _ _
    · intro l' hne
      exact update_of_ne hne _ _
    · dsimp only
      rw [update_self]
      exact (h.exact _).lease hempty hnodup hfree
    · intro st₂ hst₂
      obtain rfl := Option.some.inj hst₂
      dsimp only
      rw [update_self]
      exact hok'
    · intro r' hr st₂ hst₂
      dsimp only
      rw [update_self]
      have hok₂ := h.states _ _ _ hst₂
      refine ⟨hok₂.layerId, hok₂.relative, hok₂.start, hok₂.length, fun hne i slot hi => ?_⟩
      rw [hok₂.data hne i slot hi]
      refine congrArg some (hothers slot fun hmem => ?_).symm
      -- A slot of another request is not free.
      have halloc : slot ∈ (w.layerPools st'.layerId).allocated := by
        refine ((h.exact _).mem_iff slot).mpr ⟨r', ?_⟩
        unfold Worker.owned slotsOf
        rw [hst₂]
        exact List.mem_of_getElem? hi
      exact Finset.disjoint_left.mp (h.exact _).disjoint (hfree slot hmem) halloc
  · rw [if_neg hstep] at hbody
    obtain rfl := Option.some.inj hbody
    refine h.change (some { st with step := st.step + 1 })
      (live_update (join_of_reqStates hstates) hlength) (fun _ _ => rfl) (fun _ _ => rfl) ?_ ?_
      (fun r' _ st hst => h.states r' l st hst)
    · have hsame : update (w.owned l) m.requestId
          (slotsOf (some { st with step := st.step + 1 })) = w.owned l := by
        refine update_eq_self_iff.mpr ?_
        unfold Worker.owned
        rw [hst]
        rfl
      rw [hsame]
      exact h.exact l
    · intro st₂ hst₂
      obtain rfl := Option.some.inj hst₂
      exact hok.tick hstep

theorem Worker.Took.attentionFinished (h : w.Took r' l')
    (hw : w.attentionFinished cfg m l order repre = some w') : w'.Took r' l' := by
  unfold Worker.attentionFinished at hw
  obtain ⟨states, hstates, hw⟩ := Option.bind_eq_some_iff.mp hw
  obtain ⟨place, hplace, hw⟩ := Option.bind_eq_some_iff.mp hw
  obtain ⟨st, -, hw⟩ := Option.bind_eq_some_iff.mp hw
  obtain ⟨hlength, _⟩ := List.getElem?_eq_some_iff.mp hplace
  have hset : ∀ {pools : Nat → ReprePool} {data : Nat → Nat → ρ} {st' : LayerState ρ},
      Worker.Took ⟨pools, data, update w.reqStates m.requestId
        (some (states.set l (some { st' with step := st'.step + 1 })))⟩ r' l' := by
    intro pools data st'
    unfold Worker.Took
    rw [live_update (join_of_reqStates hstates) hlength]
    split_ifs
    · exact ⟨_, rfl, Nat.succ_ne_zero _⟩
    · exact h
  split_ifs at hw
  · exact Option.some.inj hw ▸ h
  · obtain ⟨⟨st', pool, data⟩, -, hw⟩ := Option.bind_eq_some_iff.mp hw
    exact Option.some.inj hw ▸ hset
  · exact Option.some.inj hw ▸ hset

/-! ## Finishing -/

theorem foldlM_freeSlots (k : Nat) (pools : Nat → ReprePool)
    (hall : ∀ i place, states[i]? = some place → ∃ st, place = some st ∧ st.layerId = k + i) :
    ∃ pools', states.foldlM (fun pools place => do
        let layerState ← place
        some (Worker.freeSlots pools layerState)) pools = some pools' ∧
      (∀ l < k, pools' l = pools l) ∧
      ∀ i, pools' (k + i) = (pools (k + i)).free (slotsOf states[i]?.join) := by
  have hfree : ∀ pool : ReprePool, pool.free [] = pool := by
    intro pool
    unfold ReprePool.free
    rw [List.toFinset_nil, Finset.union_empty, Finset.sdiff_empty]
  induction states generalizing k pools with
  | nil => exact ⟨pools, rfl, fun _ _ => rfl, fun _ => (hfree _).symm⟩
  | cons place states ih =>
    obtain ⟨st, rfl, hl⟩ := hall 0 place rfl
    obtain ⟨pools', hfold, hbefore, hafter⟩ := ih (k + 1) (Worker.freeSlots pools st) fun i place hi => by
      obtain ⟨st', hst', hl'⟩ := hall (i + 1) place hi
      exact ⟨st', hst', by omega⟩
    refine ⟨pools', ?_, fun l hlt => ?_, fun i => ?_⟩
    · rw [List.foldlM_cons]
      exact hfold
    · rw [hbefore l (Nat.lt_succ_of_lt hlt)]
      exact update_of_ne (by omega) _ _
    · cases i with
      | zero =>
        rw [Nat.add_zero, hbefore k (Nat.lt_succ_self k)]
        unfold Worker.freeSlots
        rw [hl, Nat.add_zero, update_self]
        rfl
      | succ i =>
        have hplace : k + (i + 1) = k + 1 + i := by omega
        rw [hplace, hafter i]
        unfold Worker.freeSlots
        rw [update_of_ne (by omega)]
        rfl

theorem requestFinished_eq (h : w.Ok cfg numSlots) (hstates : w.reqStates r = some states)
    (hall : none ∉ states) :
    ∃ w', w.requestFinishedInWorker r = some w' ∧ w'.data = w.data ∧
      w'.reqStates = update w.reqStates r none ∧
      ∀ l, w'.layerPools l = (w.layerPools l).free (w.owned l r) := by
  obtain ⟨pools, hfold, -, hpools⟩ := foldlM_freeSlots 0 w.layerPools fun i place hi => by
    cases place with
    | none => exact absurd (List.mem_of_getElem? hi) hall
    | some st =>
      refine ⟨st, rfl, ?_⟩
      rw [Nat.zero_add]
      exact (h.states _ _ _ (live_of_reqStates hstates hi)).layerId
  refine ⟨⟨pools, w.data, update w.reqStates r none⟩, ?_, rfl, rfl, fun l => ?_⟩
  · unfold Worker.requestFinishedInWorker
    rw [hstates]
    dsimp only
    rw [hfold]
    rfl
  · have hl := hpools l
    rw [Nat.zero_add, join_of_reqStates hstates] at hl
    exact hl

theorem foldlM_freeSlots_none (pools : Nat → ReprePool) (hnone : none ∈ states) :
    states.foldlM (fun pools place => do
        let layerState ← place
        some (Worker.freeSlots pools layerState)) pools = none := by
  induction states generalizing pools with
  | nil => exact absurd hnone List.not_mem_nil
  | cons place states ih =>
    rw [List.foldlM_cons]
    cases place with
    | none => rfl
    | some st =>
      rcases List.mem_cons.mp hnone with hhead | htail
      · cases hhead
      · exact ih _ htail

theorem none_notMem_of_finished (hstates : w.reqStates r = some states)
    (hw : w.requestFinishedInWorker r = some w') :
    none ∉ states := by
  intro hnone
  unfold Worker.requestFinishedInWorker at hw
  rw [hstates] at hw
  dsimp only at hw
  rw [foldlM_freeSlots_none w.layerPools hnone] at hw
  cases hw

theorem Worker.Ok.requestFinished (h : w.Ok cfg numSlots)
    (hw : w.requestFinishedInWorker r = some w') : w'.Ok cfg numSlots := by
  cases hstates : w.reqStates r with
  | none =>
    unfold Worker.requestFinishedInWorker at hw
    rw [hstates] at hw
    obtain rfl := Option.some.inj hw
    exact h
  | some states =>
    obtain ⟨w₁, hw₁, hdata, hreq, hpools⟩ :=
      requestFinished_eq h hstates (none_notMem_of_finished hstates hw)
    obtain rfl := Option.some.inj (hw.symm.trans hw₁)
    have hlive : ∀ r' l, w'.live r' l = if r' = r then none else w.live r' l := by
      intro r' l
      unfold Worker.live
      rw [hreq]
      by_cases hr : r' = r
      · rw [hr, update_self, if_pos rfl]
        rfl
      · rw [update_of_ne hr, if_neg hr]
    refine ⟨fun l => ?_, fun r' l st hst => ?_⟩
    · have howned : w'.owned l = update (w.owned l) r [] := by
        funext r'
        unfold Worker.owned
        rw [hlive]
        by_cases hr : r' = r
        · rw [hr, if_pos rfl, update_self]
          rfl
        · rw [if_neg hr, update_of_ne hr]
      rw [howned, hpools l]
      exact (h.exact l).release r
    · rw [hlive] at hst
      by_cases hr : r' = r
      · rw [if_pos hr] at hst
        cases hst
      · rw [if_neg hr] at hst
        rw [hdata]
        exact h.states r' l st hst

end UnifiedCache.Esa
