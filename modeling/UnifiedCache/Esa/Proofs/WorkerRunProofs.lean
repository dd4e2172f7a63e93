import UnifiedCache.Esa.Proofs.ReprePoolProofs

/-!
# Proofs: runs of ESA on a worker

A request that is known has a state in every place, or the forward pass has still to begin the attention
of the layers without one, if the worker runs all layers. Between the passes there is nothing left to
begin. A worker that runs only some layers leaves the places of the others empty, and finishing raises.
-/

open Function Lib Lib.BlockCache

namespace UnifiedCache.Esa

variable {η ρ : Type} {cfg : Config} {numSlots total l l' r : Nat} {w w' : Worker ρ}
  {st : LayerState ρ} {m : BatchMeta η} {order : List Nat} {repre : Nat → ρ} {layers : List Nat}

/-! ## What an action does to the places -/

/-- The places of a request, or those it would be given. -/
def Worker.places (w : Worker ρ) (total r : Nat) : List (Option (LayerState ρ)) :=
  (w.reqStates r).getD (List.replicate total none)

theorem getOrCreate_places (hw : w.getOrCreateLayerwiseReqState total m l = some w') :
    ∃ states : List (Option (LayerState ρ)),
      w'.reqStates = update w.reqStates m.requestId (some states) ∧
      states.length = (w.places total m.requestId).length ∧
      ∀ l', states[l']? = some none → l' ≠ l ∧ (w.places total m.requestId)[l']? = some none := by
  unfold Worker.getOrCreateLayerwiseReqState at hw
  obtain ⟨w₁, hdrop, hw⟩ := Option.bind_eq_some_iff.mp hw
  obtain ⟨place, hplace, hw⟩ := Option.bind_eq_some_iff.mp hw
  obtain rfl := Option.some.inj hw
  -- Dropping a preempted state empties the place that is filled next.
  have hdropped : update w₁.reqStates m.requestId = update w.reqStates m.requestId ∧
      (w₁.places total m.requestId).length = (w.places total m.requestId).length ∧
      ∀ l' ≠ l, (w₁.places total m.requestId)[l']? = (w.places total m.requestId)[l']? := by
    unfold Worker.dropPreempted at hdrop
    by_cases hpreempt : m.isPreempt = true
    · rw [if_pos hpreempt] at hdrop
      obtain ⟨states, hstates, hdrop⟩ := Option.bind_eq_some_iff.mp hdrop
      obtain ⟨place', hplace', hdrop⟩ := Option.bind_eq_some_iff.mp hdrop
      obtain ⟨st, -, hdrop⟩ := Option.bind_eq_some_iff.mp hdrop
      obtain rfl := Option.some.inj hdrop
      unfold Worker.places
      dsimp only
      rw [update_self, hstates, Option.getD_some, Option.getD_some, List.length_set]
      refine ⟨funext fun x => update_idem _ _ _, rfl, fun l' hne => ?_⟩
      exact List.getElem?_set_ne (Ne.symm hne)
    · rw [if_neg hpreempt] at hdrop
      obtain rfl := Option.some.inj hdrop
      exact ⟨rfl, rfl, fun _ _ => rfl⟩
  obtain ⟨hupdate, hlength, hsame⟩ := hdropped
  obtain ⟨hl, _⟩ := List.getElem?_eq_some_iff.mp hplace
  refine ⟨_, congrFun hupdate _, ?_, ?_⟩
  · rw [← hlength]
    split_ifs
    · exact List.length_set
    · rfl
  · intro l' hl'
    cases place with
    | none =>
      rw [Option.isNone_none, if_pos rfl] at hl'
      by_cases hne : l' = l
      · rw [hne, List.getElem?_set_self hl] at hl'
        cases hl'
      · rw [List.getElem?_set_ne (Ne.symm hne)] at hl'
        exact ⟨hne, (hsame l' hne).symm.trans hl'⟩
    | some st =>
      rw [Option.isNone_some, if_neg Bool.false_ne_true] at hl'
      have hne : l' ≠ l := by
        rintro rfl
        rw [hplace] at hl'
        cases hl'
      exact ⟨hne, (hsame l' hne).symm.trans hl'⟩

theorem attentionFinished_places (total : Nat)
    (hw : w.attentionFinished cfg m l order repre = some w') :
    w.reqStates m.requestId ≠ none ∧
    ∃ states : List (Option (LayerState ρ)),
      w'.reqStates = update w.reqStates m.requestId (some states) ∧
      states.length = (w.places total m.requestId).length ∧
      ∀ l' : Nat, states[l']? = some none → (w.places total m.requestId)[l']? = some none := by
  unfold Worker.attentionFinished at hw
  obtain ⟨states, hstates, hw⟩ := Option.bind_eq_some_iff.mp hw
  obtain ⟨place, hplace, hw⟩ := Option.bind_eq_some_iff.mp hw
  obtain ⟨st, hst, hw⟩ := Option.bind_eq_some_iff.mp hw
  have hplaces : w.places total m.requestId = states := by
    unfold Worker.places
    rw [hstates]
    rfl
  obtain ⟨hl, _⟩ := List.getElem?_eq_some_iff.mp hplace
  have hset : ∀ (st' : LayerState ρ) (l' : Nat), (states.set l (some st'))[l']? = some none →
      states[l']? = some none := by
    intro st' l' hl'
    by_cases hne : l' = l
    · rw [hne, List.getElem?_set_self hl] at hl'
      cases hl'
    · rwa [List.getElem?_set_ne (Ne.symm hne)] at hl'
  rw [hplaces, hstates]
  refine ⟨Option.some_ne_none _, ?_⟩
  split_ifs at hw
  · obtain rfl := Option.some.inj hw
    refine ⟨states, ?_, rfl, fun _ h => h⟩
    exact (update_eq_self_iff.mpr hstates.symm).symm
  · obtain ⟨⟨st', pool, data⟩, -, hw⟩ := Option.bind_eq_some_iff.mp hw
    obtain rfl := Option.some.inj hw
    exact ⟨_, rfl, List.length_set, hset _⟩
  · obtain rfl := Option.some.inj hw
    exact ⟨_, rfl, List.length_set, hset _⟩

/-! ## The slots in every run -/

variable [DecidableEq η] {data : Nat → Nat → ρ} {s s' : WorkerRun η ρ} {e : Event η ρ}

/-- The layer of an action. -/
def Action.layerId : Action η → Nat
  | .begin l _ | .finished l _ => l

/-- The request of an action. -/
def Action.batchMeta : Action η → BatchMeta η
  | .begin _ m | .finished _ m => m

variable {batch : List (BatchMeta η)}

omit [DecidableEq η] in
theorem mem_passActions {a : Action η} (h : a ∈ passActions layers batch) :
    a.layerId ∈ layers ∧ a.batchMeta ∈ batch := by
  obtain ⟨l, hl, hmem⟩ := List.mem_flatMap.mp h
  rcases List.mem_append.mp hmem with hmem | hmem
  · obtain ⟨m, hm, rfl⟩ := List.mem_map.mp hmem
    exact ⟨hl, hm⟩
  · obtain ⟨m, hm, rfl⟩ := List.mem_map.mp hmem
    exact ⟨hl, hm⟩

/-- What holds in every run in which the windows fit. -/
structure RunOk (cfg : Config) (numSlots total : Nat) (s : WorkerRun η ρ) : Prop where
  worker : s.worker.Ok cfg numSlots
  lengths : ∀ r states, s.worker.reqStates r = some states → states.length = total
  requests : ∀ a ∈ s.todo, ∀ b ∈ s.todo, a.batchMeta.requestId = b.batchMeta.requestId →
    a.batchMeta = b.batchMeta
  windows : ∀ a ∈ s.todo, a.batchMeta.WindowsFit cfg
  /-- Where slots have still to be taken, the request has blocks for all its tokens. -/
  fits : ∀ l m, .finished l m ∈ s.todo →
    m.Fits cfg ∨ m.isPreempt = false ∧ s.worker.Took m.requestId l

theorem ok_start (data : Nat → Nat → ρ) :
    Worker.Ok cfg numSlots ⟨fun _ => .new numSlots, data, fun _ => none⟩ where
  exact l := Leases.exact_empty _
  states _ _ _ h := by cases h

theorem length_places (hlengths : ∀ r states, w.reqStates r = some states → states.length = total)
    (r : Nat) : (w.places total r).length = total := by
  unfold Worker.places
  cases hstates : w.reqStates r with
  | none => exact List.length_replicate
  | some states => exact hlengths r states hstates

/-- **Step lemma.** -/
theorem RunOk.step (h : RunOk cfg numSlots total s) (hC : WindowsFit cfg s e)
    (hstep : (workerMachine cfg total layers numSlots data).step s e = some s') :
    RunOk cfg numSlots total s' := by
  have hupdate : ∀ {w' : Worker ρ} {r : Nat} {states : List (Option (LayerState ρ))},
      w'.reqStates = update s.worker.reqStates r (some states) → states.length = total →
      ∀ r' states', w'.reqStates r' = some states' → states'.length = total := by
    intro w' r states hreq hlength r' states' hr'
    rw [hreq] at hr'
    by_cases hr : r' = r
    · rw [hr, update_self] at hr'
      rw [← Option.some.inj hr']
      exact hlength
    · rw [update_of_ne hr] at hr'
      exact h.lengths r' states' hr'
  cases e with
  | schedule batch program =>
    obtain ⟨⟨_, hnodup, hfits, hperm⟩, hs⟩ := Option.ite_none_right_eq_some.mp hstep
    obtain rfl := Option.some.inj hs
    have hbatch : ∀ a ∈ program, a.layerId ∈ layers ∧ a.batchMeta ∈ batch :=
      fun a ha => mem_passActions (hperm.subset ha)
    refine ⟨h.worker, h.lengths, fun a ha b hb => ?_, fun a ha => hC _ (hbatch a ha).2,
      fun l m hmem => ?_⟩
    · exact List.inj_on_of_nodup_map hnodup (hbatch a ha).2 (hbatch b hb).2
    · obtain ⟨hl, hm⟩ := hbatch _ hmem
      refine (hfits m hm).imp_right fun hdecodes => ?_
      rw [Worker.decodes, Bool.and_eq_true, Bool.not_eq_true', List.all_eq_true] at hdecodes
      have hany := hdecodes.2 l hl
      cases hst : s.worker.live m.requestId l with
      | none => rw [hst] at hany; cases hany
      | some st =>
        rw [hst] at hany
        exact ⟨hdecodes.1, st, hst, of_decide_eq_true hany⟩
  | next order repre =>
    dsimp only [workerMachine] at hstep
    cases htodo : s.todo with
    | nil =>
      rw [htodo] at hstep
      cases hstep
    | cons action todo =>
      rw [htodo] at hstep
      obtain ⟨w', hact, hs⟩ := Option.bind_eq_some_iff.mp hstep
      obtain rfl := Option.some.inj hs
      have hrequests := h.requests
      have hwindows := h.windows
      have hfits := h.fits
      rw [htodo] at hrequests hwindows hfits
      have hlater : ∀ a ∈ todo, ∀ b ∈ todo, a.batchMeta.requestId = b.batchMeta.requestId →
          a.batchMeta = b.batchMeta := fun a ha b hb =>
        hrequests a (List.mem_cons_of_mem _ ha) b (List.mem_cons_of_mem _ hb)
      have hlaterWindows : ∀ a ∈ todo, a.batchMeta.WindowsFit cfg :=
        fun a ha => hwindows a (List.mem_cons_of_mem _ ha)
      cases action with
      | begin l m =>
        obtain ⟨states, hreq, hlength, _⟩ := getOrCreate_places hact
        rw [length_places h.lengths] at hlength
        refine ⟨h.worker.getOrCreate hact, hupdate hreq hlength, hlater, hlaterWindows,
          fun l' m' hmem => ?_⟩
        have hmem' := List.mem_cons_of_mem (.begin l m) hmem
        refine (hfits l' m' hmem').imp_right fun ⟨hpreempt, st, hst, hstep⟩ => ?_
        refine ⟨hpreempt, st, getOrCreate_live hact hst fun hr _ => ?_, hstep⟩
        -- a request occurs once in the batch
        have hsame : m' = m := hrequests _ hmem' _ List.mem_cons_self hr
        rw [← hsame, hpreempt]
      | finished l m =>
        obtain ⟨-, states, hreq, hlength, _⟩ := attentionFinished_places total hact
        rw [length_places h.lengths] at hlength
        have hm := (hfits l m List.mem_cons_self).imp_right And.right
        refine ⟨h.worker.attentionFinished (hwindows _ List.mem_cons_self) hm hact,
          hupdate hreq hlength, hlater, hlaterWindows, fun l' m' hmem => ?_⟩
        exact (hfits l' m' (List.mem_cons_of_mem _ hmem)).imp_right fun ⟨hpreempt, htook⟩ =>
          ⟨hpreempt, htook.attentionFinished hact⟩
  | finish r =>
    obtain ⟨hempty, hs⟩ := Option.ite_none_right_eq_some.mp hstep
    obtain ⟨w', hw', hs⟩ := Option.bind_eq_some_iff.mp hs
    obtain rfl := Option.some.inj hs
    have htodo := List.isEmpty_iff.mp hempty
    refine ⟨h.worker.requestFinished hw', fun r' states' hr' => ?_, h.requests, h.windows,
      fun l m hmem => by rw [htodo] at hmem; cases hmem⟩
    cases hstates : s.worker.reqStates r with
    | none =>
      unfold Worker.requestFinishedInWorker at hw'
      rw [hstates] at hw'
      obtain rfl := Option.some.inj hw'
      exact h.lengths r' states' hr'
    | some states =>
      obtain ⟨w₁, hw₁, _, hreq, _⟩ :=
        requestFinished_eq h.worker hstates (none_notMem_of_finished hstates hw')
      obtain rfl := Option.some.inj (hw'.symm.trans hw₁)
      dsimp only at hr'
      rw [hreq] at hr'
      by_cases hr : r' = r
      · rw [hr, update_self] at hr'
        cases hr'
      · rw [update_of_ne hr] at hr'
        exact h.lengths r' states' hr'

omit [DecidableEq η] in
theorem runOk_start : RunOk cfg numSlots total
    (⟨⟨fun _ => .new numSlots, data, fun _ => none⟩, []⟩ : WorkerRun η ρ) :=
  ⟨ok_start data, fun _ _ h => (by cases h), fun _ h => absurd h List.not_mem_nil,
    fun _ h => absurd h List.not_mem_nil, fun _ _ h => absurd h List.not_mem_nil⟩

theorem runOk_reach (h : (workerMachine cfg total layers numSlots data).Reach (WindowsFit cfg) s) :
    RunOk cfg numSlots total s := by
  refine h.inv ?_ fun _ _ _ hs hC hstep => hs.step hC hstep
  rintro s rfl
  exact runOk_start

/-! ## A worker that runs all layers -/

/-- The places that are empty are those whose attention has still to begin in the pass. -/
structure PassOk (layers : List Nat) (s : WorkerRun η ρ) (batch : List (BatchMeta η))
    (done : List (Action η)) : Prop where
  program : (done ++ s.todo).Perm (passActions layers batch)
  empty : ∀ r states, s.worker.reqStates r = some states → ∀ l : Nat, states[l]? = some none →
    ∃ m ∈ batch, m.requestId = r ∧ .begin l m ∈ s.todo
  /-- A request whose attention began in some layer is known. -/
  known : ∀ l m, .begin l m ∈ done → s.worker.reqStates m.requestId ≠ none

omit [DecidableEq η] in
theorem passActions_nil : passActions layers ([] : List (BatchMeta η)) = [] :=
  List.flatMap_eq_nil_iff.mpr fun _ _ => rfl

omit [DecidableEq η] in
theorem begin_mem_passActions (hl : l ∈ layers) (hm : m ∈ batch) :
    .begin l m ∈ passActions layers batch :=
  List.mem_flatMap.mpr ⟨l, hl, List.mem_append_left _ (List.mem_map_of_mem hm)⟩

variable {done : List (Action η)}

omit [DecidableEq η] in
theorem empty_places (hcover : ∀ l < total, l ∈ layers) (h : PassOk layers s batch done)
    (hm : m ∈ batch) {l' : Nat} (hempty : (s.worker.places total m.requestId)[l']? = some none) :
    ∃ m' ∈ batch, m'.requestId = m.requestId ∧ .begin l' m' ∈ s.todo := by
  unfold Worker.places at hempty
  cases hstates : s.worker.reqStates m.requestId with
  | some states =>
    rw [hstates] at hempty
    exact h.empty _ states hstates l' hempty
  | none =>
    have hl' : l' < total := by
      have hlt := (List.getElem?_eq_some_iff.mp hempty).1
      rwa [hstates, Option.getD_none, List.length_replicate] at hlt
    have hbegin : .begin l' m ∈ done ++ s.todo :=
      h.program.symm.subset (begin_mem_passActions (hcover l' hl') hm)
    rcases List.mem_append.mp hbegin with hdone | htodo
    · exact absurd hstates (h.known l' m hdone)
    · exact ⟨m, hm, rfl, htodo⟩

variable {states : List (Option (LayerState ρ))}

omit [DecidableEq η] in
theorem PassOk.act {action : Action η} {todo : List (Action η)} (hcover : ∀ l < total, l ∈ layers)
    (h : PassOk layers s batch done) (htodo : s.todo = action :: todo) (hm : m ∈ batch)
    (hreq : w'.reqStates = update s.worker.reqStates m.requestId (some states))
    (hempty : ∀ l' : Nat, states[l']? = some none →
      (∀ m', action ≠ .begin l' m') ∧ (s.worker.places total m.requestId)[l']? = some none)
    (hother : ∀ l' m', action = .begin l' m' → m' = m) :
    PassOk layers ⟨w', todo⟩ batch (done ++ [action]) := by
  have hprogram := h.program
  rw [htodo] at hprogram
  refine ⟨?_, fun r states' hr l' hl' => ?_, fun l' m' hmem => ?_⟩
  · rw [List.append_assoc]
    exact hprogram
  · dsimp only at hr
    rw [hreq] at hr
    by_cases hsame : r = m.requestId
    · rw [hsame, update_self] at hr
      obtain rfl := Option.some.inj hr
      obtain ⟨hne, hplaces⟩ := hempty l' hl'
      obtain ⟨m', hm', hid, hbegin⟩ := empty_places hcover h hm hplaces
      rw [htodo] at hbegin
      refine ⟨m', hm', hid.trans hsame.symm, ?_⟩
      rcases List.mem_cons.mp hbegin with heq | hrest
      · exact absurd heq.symm (hne m')
      · exact hrest
    · rw [update_of_ne hsame] at hr
      obtain ⟨m', hm', hid, hbegin⟩ := h.empty r states' hr l' hl'
      rw [htodo] at hbegin
      refine ⟨m', hm', hid, ?_⟩
      rcases List.mem_cons.mp hbegin with heq | hrest
      · refine absurd ?_ hsame
        rw [← hid, hother l' m' heq.symm]
      · exact hrest
  · dsimp only
    rw [hreq]
    by_cases hsame : m'.requestId = m.requestId
    · rw [hsame, update_self]
      exact Option.some_ne_none _
    · rw [update_of_ne hsame]
      rcases List.mem_append.mp hmem with hdone | hlast
      · exact h.known l' m' hdone
      · refine absurd ?_ hsame
        rw [hother l' m' (List.mem_singleton.mp hlast).symm]

omit [DecidableEq η] in
theorem PassOk.no_empty (h : PassOk layers s batch done) (htodo : s.todo = [])
    (hstates : s.worker.reqStates r = some states) : none ∉ states := by
  intro hnone
  obtain ⟨l, hl⟩ := List.mem_iff_getElem?.mp hnone
  obtain ⟨m, _, _, hbegin⟩ := h.empty r states hstates l hl
  rw [htodo] at hbegin
  exact List.not_mem_nil hbegin

/-- **Step lemma.** -/
theorem PassOk.step (hcover : layers = [] ∨ ∀ l < total, l ∈ layers)
    (hs : RunOk cfg numSlots total s) (h : PassOk layers s batch done)
    (hstep : (workerMachine cfg total layers numSlots data).step s e = some s') :
    ∃ batch' done', PassOk layers s' batch' done' := by
  cases e with
  | schedule batch' program =>
    obtain ⟨⟨hempty, _, _, hperm⟩, hs'⟩ := Option.ite_none_right_eq_some.mp hstep
    obtain rfl := Option.some.inj hs'
    refine ⟨batch', [], hperm, fun r states hr l hl => ?_, fun _ _ hmem => absurd hmem List.not_mem_nil⟩
    exact absurd (List.mem_of_getElem? hl) (h.no_empty (List.isEmpty_iff.mp hempty) hr)
  | next order repre =>
    dsimp only [workerMachine] at hstep
    cases htodo : s.todo with
    | nil =>
      rw [htodo] at hstep
      cases hstep
    | cons action todo =>
      rw [htodo] at hstep
      obtain ⟨w', hact, hs'⟩ := Option.bind_eq_some_iff.mp hstep
      obtain rfl := Option.some.inj hs'
      have hmem : action ∈ passActions layers batch := by
        refine h.program.subset (List.mem_append_right _ ?_)
        rw [htodo]
        exact List.mem_cons_self
      have hcover : ∀ l < total, l ∈ layers := by
        rcases hcover with rfl | hcover
        · exact absurd hmem List.not_mem_nil
        · exact hcover
      cases action with
      | begin l m =>
        obtain ⟨states, hreq, _, hempty⟩ := getOrCreate_places hact
        refine ⟨batch, _, h.act hcover htodo (mem_passActions hmem).2 hreq ?_ ?_⟩
        · intro l' hl'
          obtain ⟨hne, hplaces⟩ := hempty l' hl'
          refine ⟨fun m' heq => ?_, hplaces⟩
          cases heq
          exact hne rfl
        · intro l' m' heq
          cases heq
          rfl
      | finished l m =>
        obtain ⟨_, states, hreq, _, hempty⟩ := attentionFinished_places total hact
        refine ⟨batch, _, h.act hcover htodo (mem_passActions hmem).2 hreq (fun l' hl' => ⟨fun m' heq => ?_, hempty l' hl'⟩)
          fun l' m' heq => ?_⟩
        · cases heq
        · cases heq
  | finish r =>
    obtain ⟨hempty, hs'⟩ := Option.ite_none_right_eq_some.mp hstep
    obtain ⟨w', hw', hs'⟩ := Option.bind_eq_some_iff.mp hs'
    obtain rfl := Option.some.inj hs'
    have htodo : s.todo = [] := List.isEmpty_iff.mp hempty
    -- Nothing is left of the pass, so that a new account can begin.
    refine ⟨[], [], ?_, fun r' states hr l hl => ?_, fun _ _ hmem => absurd hmem List.not_mem_nil⟩
    · show ([] ++ s.todo).Perm _
      rw [htodo, List.nil_append, passActions_nil]
    · have hknown : s.worker.reqStates r' = some states := by
        cases hstates : s.worker.reqStates r with
        | none =>
          unfold Worker.requestFinishedInWorker at hw'
          rw [hstates] at hw'
          obtain rfl := Option.some.inj hw'
          exact hr
        | some states₁ =>
          obtain ⟨w₁, hw₁, _, hreq, _⟩ :=
            requestFinished_eq hs.worker hstates (h.no_empty htodo hstates)
          obtain rfl := Option.some.inj (hw'.symm.trans hw₁)
          dsimp only at hr
          rw [hreq] at hr
          by_cases hsame : r' = r
          · rw [hsame, update_self] at hr
            cases hr
          · rwa [update_of_ne hsame] at hr
      exact absurd (List.mem_of_getElem? hl) (h.no_empty htodo hknown)

theorem passOk_reach (hcover : layers = [] ∨ ∀ l < total, l ∈ layers)
    (h : (workerMachine cfg total layers numSlots data).Reach (WindowsFit cfg) s) :
    ∃ batch done, PassOk layers s batch done := by
  have hboth : RunOk cfg numSlots total s ∧ ∃ batch done, PassOk layers s batch done := by
    refine h.inv (I := fun s => RunOk cfg numSlots total s ∧ ∃ batch done, PassOk layers s batch done)
      ?_ ?_
    · rintro s rfl
      refine ⟨runOk_start, [], [], ?_, fun _ _ h => (by cases h),
        fun _ _ h => absurd h List.not_mem_nil⟩
      rw [passActions_nil]
      exact List.Perm.refl _
    · rintro s e s' ⟨hs, batch, done, hpass⟩ hC hstep
      exact ⟨hs.step hC hstep, hpass.step hcover hs hstep⟩
  exact hboth.2

theorem finishOk_of_no_empty (h : w.Ok cfg numSlots)
    (hall : ∀ r states, w.reqStates r = some states → none ∉ states) : w.FinishOk := by
  intro r
  cases hstates : w.reqStates r with
  | none =>
    refine ⟨w, ?_, hstates, fun l => ?_⟩
    · unfold Worker.requestFinishedInWorker
      rw [hstates]
    · have howned : w.owned l r = [] := by
        unfold Worker.owned Worker.live
        rw [hstates]
        rfl
      unfold ReprePool.free
      rw [howned, List.toFinset_nil, Finset.union_empty, Finset.sdiff_empty]
  | some states =>
    obtain ⟨w', hw', _, hreq, hpools⟩ := requestFinished_eq h hstates (hall r states hstates)
    refine ⟨w', hw', ?_, hpools⟩
    rw [hreq, update_self]

/-! ## A worker that runs some layers -/

omit [DecidableEq η] in
theorem getOrCreate_eq (hpreempt : m.isPreempt = false) (hl : l < (w.places total m.requestId).length) :
    ∃ st, ∃ states : List (Option (LayerState ρ)), states[l]? = some (some st) ∧
      (∀ l' ≠ l, states[l']? = (w.places total m.requestId)[l']?) ∧
      w.getOrCreateLayerwiseReqState total m l =
        some { w with reqStates := update w.reqStates m.requestId (some states) } := by
  have hdrop : w.dropPreempted m l = some w := by
    unfold Worker.dropPreempted
    rw [hpreempt, if_neg Bool.false_ne_true]
  have hplace := List.getElem?_eq_getElem hl
  unfold Worker.getOrCreateLayerwiseReqState
  rw [hdrop, Option.bind_eq_bind, Option.bind_some]
  unfold Worker.places at hl hplace ⊢
  dsimp only
  rw [hplace, Option.bind_eq_bind, Option.bind_some]
  generalize (w.reqStates m.requestId).getD (List.replicate total none) = states at hl ⊢
  cases hst : states[l] with
  | none =>
    refine ⟨.new l, _, ?_, fun l' hne => ?_, rfl⟩
    · exact List.getElem?_set_self hl
    · exact List.getElem?_set_ne (Ne.symm hne)
  | some st =>
    refine ⟨st, states, ?_, fun _ _ => rfl, rfl⟩
    rw [List.getElem?_eq_getElem hl, hst]

omit [DecidableEq η] in
theorem attentionFinished_eq (cfg : Config) (order : List Nat) (repre : Nat → ρ)
    (hchunk : m.isLastChunk = false) (hstates : w.reqStates m.requestId = some states)
    (hplace : states[l]? = some (some st)) :
    ∃ w', w.attentionFinished cfg m l order repre = some w' ∧
      ∃ states' : List (Option (LayerState ρ)), w'.reqStates m.requestId = some states' ∧
        ∀ l' ≠ l, states'[l']? = states[l']? := by
  unfold Worker.attentionFinished
  rw [hstates, Option.bind_eq_bind, Option.bind_some, hplace, Option.bind_eq_bind, Option.bind_some,
    Option.bind_eq_bind, Option.bind_some]
  by_cases hstep : st.step = 0
  · rw [hchunk, if_pos ⟨hstep, rfl⟩]
    exact ⟨w, rfl, states, hstates, fun _ _ => rfl⟩
  · rw [if_neg fun h => hstep h.1, if_neg hstep]
    refine ⟨_, rfl, _, update_self _ _ _, fun l' hne => ?_⟩
    exact List.getElem?_set_ne (Ne.symm hne)

theorem run_layer (hs : (workerMachine cfg total layers numSlots data).Reach (WindowsFit cfg) s)
    (hpreempt : m.isPreempt = false) (hchunk : m.isLastChunk = false) (hl : l < total)
    {todo : List (Action η)} (htodo : s.todo = .begin l m :: .finished l m :: todo) :
    ∃ s', (workerMachine cfg total layers numSlots data).Reach (WindowsFit cfg) s' ∧ s'.todo = todo ∧
      s'.worker.reqStates m.requestId ≠ none ∧
      ∀ l' ≠ l, (s'.worker.places total m.requestId)[l']? =
        (s.worker.places total m.requestId)[l']? := by
  have hok := runOk_reach hs
  have hlength := length_places hok.lengths m.requestId
  obtain ⟨w, todo'⟩ := s
  dsimp only at htodo hlength
  subst htodo
  have hplace : l < (w.places total m.requestId).length := by omega
  obtain ⟨st, states, hst, hstates, hcreate⟩ := getOrCreate_eq hpreempt hplace
  let w₁ : Worker ρ := { w with reqStates := update w.reqStates m.requestId (some states) }
  have hw₁ : w₁.reqStates m.requestId = some states := update_self _ _ _
  obtain ⟨w', hfinished, states', hreq, hstates'⟩ :=
    attentionFinished_eq cfg [] (data 0) hchunk hw₁ hst
  have hbegun : (workerMachine cfg total layers numSlots data).Reach (WindowsFit cfg)
      ⟨w₁, .finished l m :: todo⟩ := by
    refine .step (e := .next [] (data 0)) hs trivial ?_
    show (act cfg total w [] (data 0) (.begin l m)).bind _ = _
    rw [show act cfg total w [] (data 0) (.begin l m) = some w₁ from hcreate]
    rfl
  refine ⟨⟨w', todo⟩, .step (e := .next [] (data 0)) hbegun trivial ?_, rfl, ?_, fun l' hne => ?_⟩
  · show (act cfg total w₁ [] (data 0) (.finished l m)).bind _ = _
    rw [show act cfg total w₁ [] (data 0) (.finished l m) = some w' from hfinished]
    rfl
  · dsimp only
    rw [hreq]
    exact Option.some_ne_none _
  · have hplaces : w'.places total m.requestId = states' := by
      unfold Worker.places
      rw [hreq, Option.getD_some]
    dsimp only
    rw [hplaces, hstates' l' hne, hstates l' hne]

theorem run_pass {todo : List Nat} (htodo : s.todo = passActions todo [m])
    (hs : (workerMachine cfg total layers numSlots data).Reach (WindowsFit cfg) s)
    (hpreempt : m.isPreempt = false) (hchunk : m.isLastChunk = false) (hrange : ∀ l ∈ todo, l < total)
    (hknown : todo = [] → s.worker.reqStates m.requestId ≠ none) :
    ∃ s' : WorkerRun η ρ, (workerMachine cfg total layers numSlots data).Reach (WindowsFit cfg) s' ∧
      s'.todo = [] ∧ s'.worker.reqStates m.requestId ≠ none ∧
      ∀ l ∉ todo, (s'.worker.places total m.requestId)[l]? =
        (s.worker.places total m.requestId)[l]? := by
  induction todo generalizing s with
  | nil => exact ⟨s, hs, htodo, hknown rfl, fun _ _ => rfl⟩
  | cons l todo ih =>
    obtain ⟨s₁, hs₁, htodo₁, hknown₁, hplaces₁⟩ :=
      run_layer hs hpreempt hchunk (hrange l List.mem_cons_self) htodo
    obtain ⟨s₂, hs₂, htodo₂, hknown₂, hplaces₂⟩ := ih htodo₁ hs₁
      (fun l' hl' => hrange l' (List.mem_cons_of_mem _ hl')) fun _ => hknown₁
    refine ⟨s₂, hs₂, htodo₂, hknown₂, fun l' hl' => ?_⟩
    obtain ⟨hne, hrest⟩ := List.ne_and_not_mem_of_not_mem_cons hl'
    rw [hplaces₂ l' hrest, hplaces₁ l' hne]

/-- A request whose prompt has blocks for both windows and two more gets one token computed. -/
def firstChunk (η : Type) (cfg : Config) : BatchMeta η where
  numPromptTokens := (cfg.initWindowSz + cfg.localWindowSz + 2) * cfg.blockSize
  numOutputTokens := 0
  numScheduledTokens := 1
  numComputedTokens := 0
  vllmBlockIds := [0]
  ucmBlockHashes := []
  requestId := 0
  isPreempt := false

theorem exists_stuck (hlayers : ∀ l ∈ layers, l < total) (hne : layers ≠ []) (hl : l < total)
    (hout : l ∉ layers) :
    ∃ s : WorkerRun η ρ, (workerMachine cfg total layers numSlots data).Reach (WindowsFit cfg) s ∧
      s.todo = [] ∧ s.worker.requestFinishedInWorker 0 = none := by
  have hpos := cfg.blockSize_pos
  have hfits : (firstChunk η cfg).Fits cfg := by
    show 0 + 1 ≤ 1 * cfg.blockSize
    omega
  have hwindows : (firstChunk η cfg).WindowsFit cfg := by
    unfold BatchMeta.WindowsFit firstChunk
    rw [mul_comm, ← smul_eq_mul, smul_ceilDiv hpos]
    exact Nat.le_add_right _ 2
  have hchunk : (firstChunk η cfg).isLastChunk = false := by
    refine decide_eq_false (Nat.not_le.mpr ?_)
    show 0 + 1 < (cfg.initWindowSz + cfg.localWindowSz + 2) * cfg.blockSize + 0
    nlinarith
  have hstart : (workerMachine (η := η) cfg total layers numSlots data).Reach (WindowsFit cfg)
      ⟨⟨fun _ => .new numSlots, data, fun _ => none⟩, passActions layers [firstChunk η cfg]⟩ := by
    refine .step (e := .schedule [firstChunk η cfg] (passActions layers [firstChunk η cfg]))
      (.init rfl) (fun m hm => ?_) ?_
    · rw [List.mem_singleton.mp hm]
      exact hwindows
    · refine if_pos ⟨rfl, List.nodup_singleton _, fun m hm => .inl ?_, .refl _⟩
      rw [List.mem_singleton.mp hm]
      exact hfits
  obtain ⟨s, hs, htodo, hknown, hplaces⟩ := run_pass rfl hstart rfl hchunk hlayers
    fun h => absurd h hne
  refine ⟨s, hs, htodo, ?_⟩
  cases hstates : s.worker.reqStates 0 with
  | none => exact absurd hstates hknown
  | some states =>
    have hplace : states[l]? = some none := by
      have h := hplaces l hout
      unfold Worker.places at h
      rw [show s.worker.reqStates (firstChunk η cfg).requestId = some states from hstates] at h
      rw [Option.getD_some] at h
      rw [h]
      exact List.getElem?_replicate_of_lt hl
    unfold Worker.requestFinishedInWorker
    rw [hstates]
    dsimp only
    rw [foldlM_freeSlots_none _ (List.mem_of_getElem? hplace)]
    rfl

/-! ## Main result -/

/-- If the prompts have blocks for both windows, the slots are owned exclusively in every run; requests can
always finish if and only if the worker runs all layers or none. -/
theorem slots_ok_iff (hlayers : ∀ l ∈ layers, l < total) :
    (∀ s, (workerMachine (η := η) cfg total layers numSlots data).Reach (WindowsFit cfg) s →
      s.worker.Ok cfg numSlots ∧ (s.todo = [] → s.worker.FinishOk)) ↔
      layers = [] ∨ ∀ l < total, l ∈ layers := by
  constructor
  · intro hall
    by_contra hnot
    obtain ⟨hne, hnot⟩ := not_or.mp hnot
    push Not at hnot
    obtain ⟨l, hl, hout⟩ := hnot
    obtain ⟨s, hs, htodo, hnone⟩ := exists_stuck (η := η) hlayers hne hl hout
    obtain ⟨w', hw', _⟩ := (hall s hs).2 htodo 0
    rw [hnone] at hw'
    cases hw'
  · intro hcover s hs
    have hok := runOk_reach hs
    obtain ⟨batch, done, hpass⟩ := passOk_reach hcover hs
    exact ⟨hok.worker, fun htodo => finishOk_of_no_empty hok.worker fun _ _ hstates =>
      hpass.no_empty htodo hstates⟩

/-- Blocks of one token, without windows. -/
def noWindows : Config :=
  ⟨1, 0, 0, 1, 1, 1, Nat.one_pos, by decide, by decide, Nat.one_pos⟩

/-- A worker that runs both layers of a model. -/
theorem slots_ok_two : (∀ l < 2, l ∈ [0, 1]) ∧
    ∀ s : WorkerRun Nat Nat,
      (workerMachine noWindows 2 [0, 1] 4 fun _ _ => 0).Reach (WindowsFit noWindows) s →
      s.worker.Ok noWindows 4 ∧ (s.todo = [] → s.worker.FinishOk) :=
  ⟨by decide, (slots_ok_iff (by decide)).mpr (.inr (by decide))⟩

/-- The first half of a model of two layers: its requests cannot finish. -/
theorem not_slots_ok_first_layer :
    ¬ ∀ s : WorkerRun Nat Nat, (workerMachine noWindows 2 [0] 4 fun _ _ => 0).Reachable s →
      s.worker.Ok noWindows 4 ∧ (s.todo = [] → s.worker.FinishOk) := by
  intro hall
  have hstuck : ∃ s : WorkerRun Nat Nat,
      (workerMachine noWindows 2 [0] 4 fun _ _ => 0).Reach (WindowsFit noWindows) s ∧
        s.todo = [] ∧ s.worker.requestFinishedInWorker 0 = none :=
    exists_stuck (l := 1) (by decide) (by decide) (by decide) (by decide)
  obtain ⟨s, hs, htodo, hnone⟩ := hstuck
  obtain ⟨w', hw', _⟩ := (hall s hs.reachable).2 htodo 0
  rw [hnone] at hw'
  cases hw'

end UnifiedCache.Esa
