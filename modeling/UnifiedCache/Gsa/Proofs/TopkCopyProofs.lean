import UnifiedCache.Gsa.Proofs.TopkPhasesProofs

/-!
# Proofs: the main thread and the copy thread

The main thread opens the hand-over of a top-k when nothing is on its way. The copy thread makes the
first of its requests ready, and with the one for layer 0 the pass is due.
-/

open Function Lib

namespace UnifiedCache.Gsa.CalKpreAndTopk

variable {last k layer : Nat} {topk keys : Bool} {locations : List Int} {rest later : List CopyInfo}
  {qReady kReady : Nat → Bool} {s s' : State} {d : Decode} {r : CopyInfo}

/-! ## The main thread -/

theorem Phase.push {reqs : List CopyInfo} (h : Phase last s k rest)
    (hmain : s.mainPc = .forward (r :: reqs)) :
    Phase last { s.addCopyReq r with mainPc := .forward reqs } k rest := by
  cases h with
  | idle _ _ h => exact .idle reqs rfl { h with }
  | preparing d hprepare h =>
    rcases hprepare.mainPc with hpc | ⟨hpc, -⟩
    · cases hmain.symm.trans hpc
    · cases hmain.symm.trans hpc
  | opening d h =>
    rcases h.mainPc with ⟨-, -, hpc | ⟨hpc, -⟩⟩ | ⟨-, hparams⟩
    · cases hmain.symm.trans hpc
    · cases hmain.symm.trans hpc
    · exact .opening d { h with mainPc := .inr ⟨⟨reqs, rfl⟩, hparams⟩ }
  | active topk keys d h => exact .active topk keys d { h with mainPc := ⟨reqs, rfl⟩ }
  | resetting topk keys h => exact .resetting topk keys { h with mainPc := ⟨reqs, rfl⟩ }

theorem Phase.pop {copyQueue : List CopyInfo} (h : Phase last s k rest) (hpc : s.copyPc = .idle)
    (hqueue : s.copyQueue = r :: copyQueue) :
    Phase last { s with copyQueue := copyQueue, copyPc := .popped r } k rest := by
  cases h with
  | idle reqs hmain h => exact .idle reqs hmain { h with }
  | preparing d hprepare h =>
    rw [hprepare.copyQueue] at hqueue
    cases hqueue
  | opening d h =>
    have hpre := h.needCalPre
    rw [hpc] at hpre
    have hmain : (∃ reqs, s.mainPc = .forward reqs) ∧ Params s k d := by
      rcases h.mainPc with ⟨⟨-, -, hnil⟩, -⟩ | hmain
      · rw [hnil] at hqueue
        cases hqueue
      · exact hmain
    exact .opening d { h with
      mainPc := .inr hmain
      rows := ⟨h.rows.ready, nofun⟩
      needCalPre := hpre
      locking := nofun
      storing := nofun }
  | active topk keys d h =>
    refine .active topk keys d { h with query := fun htopk => ?_ }
    obtain ⟨hloc, hparams, hrows, hasked⟩ := h.query htopk
    exact ⟨hloc, hparams, ⟨hrows.ready, nofun⟩, hasked⟩
  | resetting topk keys h => exact .resetting topk keys { h with }

theorem Phase.idle_of_isTopkCal (hcommon : Common last k rest s) (h : Phase last s k rest)
    (hmain : s.mainPc = .forward []) (hflag : s.topkFlag last = true) (hcopy : s.copyPc = .idle)
    (hqueue : s.copyQueue = []) (hresets : s.calcPc.resets = false) :
    rest = [] ∧ Idle last s := by
  have hcoming : s.coming last = [] := by
    unfold State.coming
    rw [hcopy, hqueue, hmain]
    rfl
  cases h with
  | idle _ _ h => exact ⟨rfl, h⟩
  | preparing _ _ h => exact ⟨rfl, h⟩
  | opening d h =>
    obtain ⟨r, rest', rfl, -⟩ := h.first
    obtain ⟨later, hlater, -⟩ := hcommon.coming
    rw [hcoming] at hlater
    cases hlater
  | active topk keys d h =>
    rw [h.topkFlag] at hflag
    cases hflag
  | resetting topk keys h =>
    rw [h.calcPc.resets] at hresets
    cases hresets

theorem Phase.served_of_finish (hcommon : Common last k rest s) (h : Phase last s k rest)
    (hmain : s.mainPc = .forward []) (hflag : s.topkFlag last = true) (hclear : s.clearing = false)
    {x : Nat × Decode} (hx : s.asked.head? = some x) (htaken : s.taken x.1 = true) :
    Served last s.runs x := by
  have hmem : x ∈ s.asked := List.mem_of_head? hx
  cases h with
  | idle _ _ h => exact h.served x hmem
  | preparing _ _ h => exact h.served x hmem
  | opening d h =>
    -- The request for layer 0 is in the queue, or with the copy thread.
    obtain ⟨older, hasked, -⟩ := h.asked.asked
    rw [hasked] at hx
    cases hx
    obtain ⟨r, rest', rfl, hlayer, hstep⟩ := h.first
    obtain ⟨later, hcoming, -⟩ := hcommon.coming
    unfold State.coming at hcoming
    rw [hmain] at hcoming
    cases hreq : s.copyPc.req with
    | none =>
      rw [hreq] at hcoming
      have hqueue : r ∈ s.copyQueue := by
        have hr : r ∈ [] ++ s.copyQueue ++ [] := hcoming ▸ List.mem_cons_self
        simpa using hr
      have hr := List.all_eq_true.mp htaken r hqueue
      simp [hlayer, hstep] at hr
    | some r' =>
      rw [hreq] at hcoming
      obtain ⟨rfl, -⟩ := List.cons.inj hcoming
      unfold State.clearing at hclear
      rw [hreq, hasked] at hclear
      simp [hlayer, hstep, htaken] at hclear
  | active topk keys d h =>
    rw [h.topkFlag] at hflag
    cases hflag
  | resetting topk keys h => exact h.served x hmem

theorem Inv.executeBegin {wanted : Bool} (h : Inv last s)
    (hin : InTime last s (.executeBegin wanted d)) (hstep : s.executeBegin last wanted d = some s') :
    Inv last s' := by
  obtain ⟨k, rest, hcommon, hphase⟩ := h
  unfold State.executeBegin at hstep
  split at hstep
  · next hmain =>
    cases hstep
    have hfinished : ∀ x ∈ s.finished ++ (if s.isCalculateFinish last then
        s.asked.head?.toList.filter fun x => s.taken x.1 else []), Served last s.runs x := by
      intro x hx
      rcases List.mem_append.mp hx with hx | hx
      · exact hcommon.finished x hx
      · split_ifs at hx with hflag
        · obtain ⟨hhead, htaken⟩ := List.mem_filter.mp hx
          exact hphase.served_of_finish hcommon hmain hflag (hin.1 hflag)
            (Option.mem_toList.mp hhead) htaken
        · cases hx
    have hasked : ∀ x ∈ s.asked, x.1 ≤ s.decodeStep + 1 :=
      fun x hx => Nat.le_succ_of_le (hcommon.asked x hx)
    obtain ⟨later, hcoming, hlater⟩ := hcommon.coming
    unfold State.coming at hcoming
    rw [hmain] at hcoming
    by_cases htopk : s.isTopkCal last wanted d = true
    · rw [if_pos htopk]
      obtain ⟨hcopy, hqueue, hresets⟩ := hin.2 htopk
      simp only [State.isTopkCal, Bool.and_eq_true] at htopk
      obtain ⟨⟨hflag, -⟩, hany⟩ := htopk
      obtain ⟨rfl, hidle⟩ := hphase.idle_of_isTopkCal hcommon hmain hflag hcopy hqueue hresets
      have hloc : d.locations ≠ [] := by
        rintro hnil
        rw [hnil] at hany
        cases hany
      refine ⟨k, [], { hcommon with
        coming := ⟨later, hcoming, hlater⟩, finished := hfinished, asked := hasked }, ?_⟩
      exact .preparing d ⟨hloc, hcopy, hqueue, .inl rfl,
        fun x hx => Nat.lt_succ_of_le (hcommon.asked x hx)⟩ { hidle with }
    · rw [if_neg htopk]
      refine ⟨k, rest, { hcommon with
        coming := ⟨_, ?_, hlater.append d.isCalKpre d.locations (s.decodeStep + 1)⟩
        finished := hfinished
        asked := hasked }, ?_⟩
      · rw [← List.append_assoc, ← hcoming]
        simp only [State.coming, MainPc.ahead, List.append_nil]
      · cases hphase with
        | idle _ _ h => exact .idle _ rfl { h with }
        | preparing d hprepare h =>
          rcases hprepare.mainPc with hpc | ⟨hpc, -⟩
          · cases hmain.symm.trans hpc
          · cases hmain.symm.trans hpc
        | opening d' h =>
          rcases h.mainPc with ⟨-, -, hpc | ⟨hpc, -⟩⟩ | ⟨-, hparams⟩
          · cases hmain.symm.trans hpc
          · cases hmain.symm.trans hpc
          · exact .opening d' { h with mainPc := .inr ⟨⟨_, rfl⟩, hparams⟩ }
        | active topk keys d' h => exact .active topk keys d' { h with mainPc := ⟨_, rfl⟩ }
        | resetting topk keys h => exact .resetting topk keys { h with mainPc := ⟨_, rfl⟩ }
  · cases hstep

theorem Phase.main_cases (h : Phase last s k rest) : (∃ reqs, s.mainPc = .forward reqs) ∨
    (∃ d, rest = [] ∧ Preparing s d ∧ Idle last s) ∨ ∃ d, Opening last s k d rest ∧
      (s.decodeStep = k ∧ s.copyPc = .idle ∧ s.copyQueue = []) ∧
      (s.calTopkIdx = calTopkId d.locations ∧ s.isDecode = CalKpreAndTopk.isDecode d.locations) ∧
      (s.mainPc = .setRepreSlotMapping d ∨
        s.mainPc = .setTopkCache d ∧ s.repreSlotMapping = d.repreSlotMapping) := by
  cases h with
  | idle reqs hmain h => exact .inl ⟨reqs, hmain⟩
  | preparing d hprepare h => exact .inr (.inl ⟨d, rfl, hprepare, h⟩)
  | opening d h =>
    rcases h.mainPc with hmain | ⟨hmain, -⟩
    · exact .inr (.inr ⟨d, h, hmain⟩)
    · exact .inl hmain
  | active _ _ _ h => exact .inl h.mainPc
  | resetting _ _ h => exact .inl h.mainPc

theorem Preparing.setTopkParam (hcommon : Common last k [] s) (hprepare : Preparing s d)
    (h : Idle last s) (hparams : s.calTopkIdx = calTopkId d.locations ∧
      s.isDecode = CalKpreAndTopk.isDecode d.locations) :
    Inv last { s with
      needCalTopk := true
      asked := (s.decodeStep, d) :: s.asked
      mainPc := .setRepreSlotMapping d } := by
  have hfresh : ∀ layer, (s.runs.filter fun r => r.step = s.decodeStep ∧ r.layer = layer) = [] := by
    intro layer
    refine List.filter_eq_nil_iff.mpr fun r hr hboth => ?_
    obtain ⟨x, hx, hstep⟩ := hcommon.runs r hr
    have hlt := hprepare.asked x hx
    rw [hstep, (of_decide_eq_true hboth).1] at hlt
    exact Nat.lt_irrefl _ hlt
  have hnone : ∀ layer, s.qReady layer ≠ true := fun layer hready => by
    cases (h.qReady layer).symm.trans hready
  have hidle := hprepare.copyPc
  refine ⟨s.decodeStep, requests last true d.isCalKpre d.locations s.decodeStep,
    { hcommon with
      coming := ⟨[], ?_, .nil⟩
      query := fun r hr hloc => ?_
      runs := fun r hr => ?_
      asked := fun x hx => ?_ }, .opening d
    { h with
      needCalTopk := rfl
      asked := ⟨⟨_, rfl, h.served⟩, fun layer _ => hfresh layer⟩
      locations := hprepare.locations
      mainPc := .inl ⟨⟨rfl, hidle, hprepare.copyQueue⟩, hparams, .inl rfl⟩
      progress := .start h.qReady h.kReady
      kReady := h.kReady
      rest := .inl rfl
      qStep := fun layer hready => absurd hready (hnone layer)
      rows := ⟨fun layer hready => absurd hready (hnone layer), fun r hr => ?_⟩
      needCalPre := ?_
      locking := fun r hr => by cases hidle.symm.trans hr
      storing := fun r hr => by cases hidle.symm.trans hr }⟩
  · simp only [State.coming, MainPc.ahead, hidle, hprepare.copyQueue, CopyPc.req,
      Option.toList_none, List.nil_append, List.append_nil]
  · rcases (mem_requests.mp hr).2 with ⟨-, heq⟩ | ⟨-, heq⟩
    · rw [heq]
      rfl
    · rw [heq] at hloc
      exact absurd rfl hloc
  · obtain ⟨x, hx, hstep⟩ := hcommon.runs r hr
    exact ⟨x, List.mem_cons_of_mem _ hx, hstep⟩
  · rcases List.mem_cons.mp hx with rfl | hx
    · exact Nat.le_refl _
    · exact hcommon.asked x hx
  · have hr' : s.copyPc.copied = some r := hr
    rw [hidle] at hr'
    cases hr'
  · show s.needCalPre = (d.isCalKpre && (s.qReady 0 || s.copyPc.started))
    rw [h.needCalPre, h.qReady 0, hidle]
    exact (Bool.and_false _).symm

theorem Inv.goOn (h : Inv last s) (hstep : s.goOn last = some s') : Inv last s' := by
  obtain ⟨k, rest, hcommon, hphase⟩ := h
  obtain ⟨later, hcoming, hlater⟩ := hcommon.coming
  have hcases := hphase.main_cases
  unfold State.coming at hcoming
  unfold State.goOn at hstep
  split at hstep
  · -- setCommonParam
    next d hmain =>
    cases hstep
    rw [hmain] at hcoming hcases
    rcases hcases with ⟨_, hpc⟩ | ⟨d', rfl, hprepare, hidle⟩ | ⟨_, -, -, -, hpc | ⟨hpc, -⟩⟩
    · cases hpc
    · obtain rfl : d = d' := by
        rcases hprepare.mainPc with hpc | ⟨hpc, -⟩
        · cases hmain.symm.trans hpc
          rfl
        · cases hmain.symm.trans hpc
      exact ⟨k, [], { hcommon with coming := ⟨later, hcoming, hlater⟩ },
        .preparing d { hprepare with mainPc := .inr ⟨rfl, rfl, rfl⟩ } { hidle with }⟩
    · cases hpc
    · cases hpc
  · -- setTopkParam
    next d hmain =>
    cases hstep
    rw [hmain] at hcases
    rcases hcases with ⟨_, hpc⟩ | ⟨d', rfl, hprepare, hidle⟩ | ⟨_, -, -, -, hpc | ⟨hpc, -⟩⟩
    · cases hpc
    · rcases hprepare.mainPc with hpc | ⟨hpc, hparams⟩
      · cases hmain.symm.trans hpc
      · cases hmain.symm.trans hpc
        exact hprepare.setTopkParam hcommon hidle hparams
    · cases hpc
    · cases hpc
  · -- setRepreSlotMapping
    next d hmain =>
    cases hstep
    rw [hmain] at hcoming
    rcases hcases with ⟨_, hpc⟩ | ⟨_, -, hprepare, -⟩ | ⟨d', hopen, hk, hparams, hpc | ⟨hpc, -⟩⟩
    · cases hmain.symm.trans hpc
    · rcases hprepare.mainPc with hpc | ⟨hpc, -⟩
      · cases hmain.symm.trans hpc
      · cases hmain.symm.trans hpc
    · cases hmain.symm.trans hpc
      exact ⟨k, rest, { hcommon with coming := ⟨later, hcoming, hlater⟩ },
        .opening d { hopen with mainPc := .inl ⟨hk, hparams, .inr ⟨rfl, rfl⟩⟩ }⟩
    · cases hmain.symm.trans hpc
  · -- setTopkCache
    next d hmain =>
    cases hstep
    rw [hmain] at hcoming
    rcases hcases with ⟨_, hpc⟩ | ⟨_, -, hprepare, -⟩ | ⟨d', hopen, hk, hparams, hpc | ⟨hpc, hmap⟩⟩
    · cases hmain.symm.trans hpc
    · rcases hprepare.mainPc with hpc | ⟨hpc, -⟩
      · cases hmain.symm.trans hpc
      · cases hmain.symm.trans hpc
    · cases hmain.symm.trans hpc
    · cases hmain.symm.trans hpc
      exact ⟨k, rest, { hcommon with coming := ⟨later, hcoming, hlater⟩ }, .opening d
        { hopen with mainPc := .inr ⟨⟨_, rfl⟩, hparams, hmap, hk.1, rfl⟩ }⟩
  · cases hstep
  · next r reqs hmain =>
    cases hstep
    exact ⟨k, rest, hcommon.push hmain, hphase.push hmain⟩

/-! ## The copy thread -/

theorem Opening.params (h : Opening last s k d rest) (hreq : s.copyPc.req = some r) :
    (∃ reqs, s.mainPc = .forward reqs) ∧ Params s k d := by
  rcases h.mainPc with ⟨⟨-, hidle, -⟩, -⟩ | hmain
  · rw [hidle] at hreq
    cases hreq
  · exact hmain

theorem Opening.head_query (h : Opening last s k d (r :: rest)) (hloc : r.locations ≠ []) :
    r = copyQ d.isCalKpre d.locations k 0 ∧ rest = (if d.isCalKpre then [copyK k 0] else []) ++
      upperRequests last true d.isCalKpre d.locations k := by
  rcases h.rest with hrest | ⟨-, hrest⟩
  · rw [requests_true] at hrest
    exact List.cons.inj hrest
  · rw [(List.cons.inj hrest).1] at hloc
    exact absurd rfl hloc

theorem Opening.head_key (h : Opening last s k d (r :: rest)) (hloc : r.locations = []) :
    r = copyK k 0 ∧ d.isCalKpre = true ∧ rest = upperRequests last true true d.locations k := by
  rcases h.rest with hrest | ⟨hkeys, hrest⟩
  · rw [requests_true] at hrest
    rw [(List.cons.inj hrest).1] at hloc
    exact absurd hloc h.locations
  · exact ⟨(List.cons.inj hrest).1, hkeys, (List.cons.inj hrest).2⟩

theorem Active.head_query (h : Active last s k topk keys d (r :: rest)) (hloc : r.locations ≠ []) :
    topk = true ∧ r = copyQ keys d.locations k r.layerId ∧ r.layerId ≠ 0 := by
  have hlayer := h.opened r List.mem_cons_self
  rcases (mem_requests.mp (h.progress.suffix.subset List.mem_cons_self)).2 with ⟨htopk, hr⟩ | ⟨-, hr⟩
  · exact ⟨htopk, hr, hlayer⟩
  · rw [hr] at hloc
    exact absurd rfl hloc

theorem Rows.copyRows {qCache : Nat → Nat → Nat} {pc : CopyPc} (h : Rows qReady qCache pc k d)
    {rows : Nat → Nat} (hrows : ∀ i < d.locations.length, rows i = k)
    (hloc : r.locations = d.locations) :
    Rows qReady (update qCache r.layerId fun i =>
      if r.locations[i]?.any (· ≠ -1) then rows i else qCache r.layerId i)
      (.setTopkDataReady r) k d := by
  have hcopied : ∀ i ∈ calTopkId d.locations, update qCache r.layerId (fun i =>
      if r.locations[i]?.any (· ≠ -1) then rows i else qCache r.layerId i) r.layerId i = k := by
    intro i hi
    obtain ⟨hlt, hany⟩ := List.mem_filter.mp hi
    rw [update_self, hloc, if_pos hany]
    exact hrows i (List.mem_range.mp hlt)
  refine ⟨fun layer hready i hi => ?_, fun r' hr' i hi => ?_⟩
  · by_cases hlayer : layer = r.layerId
    · rw [hlayer]
      exact hcopied i hi
    · rw [update_of_ne hlayer]
      exact h.ready layer hready i hi
  · cases hr'
    exact hcopied i hi

theorem Rows.storeQ {qCache : Nat → Nat → Nat} {pc : CopyPc} (h : Rows qReady qCache pc k d)
    (hr : pc.copied = some r) : Rows (update qReady r.layerId true) qCache .idle k d := by
  refine ⟨fun layer hready i hi => ?_, nofun⟩
  by_cases hlayer : layer = r.layerId
  · rw [hlayer]
    exact h.copied r hr i hi
  · rw [update_of_ne hlayer] at hready
    exact h.ready layer hready i hi

theorem update_flagStep {ready : Nat → Bool} {flagStep : Nat → Nat}
    (h : ∀ layer, ready layer = true → flagStep layer = k) (hk : r.step = k) :
    ∀ layer, update ready r.layerId true layer = true →
      update flagStep r.layerId r.step layer = k := by
  intro layer hready
  by_cases hlayer : layer = r.layerId
  · rw [hlayer, update_self]
    exact hk
  · rw [update_of_ne hlayer] at hready ⊢
    exact h layer hready

theorem update_ready (ready : Nat → Bool) (i : Nat) :
    ∀ layer, ready layer = true → update ready i true layer = true := by
  intro layer hready
  by_cases hlayer : layer = i
  · rw [hlayer, update_self]
  · rw [update_of_ne hlayer]
    exact hready

theorem Inv.startQuery (h : Inv last s) (hpc : s.copyPc = .popped r) (hloc : r.locations ≠ []) :
    Inv last { s with
      needCalPre := if r.layerId = 0 then r.needCalKpre else s.needCalPre
      copyPc := .copying r } := by
  obtain ⟨k, rest, hcommon, hphase⟩ := h
  have hreq : s.copyPc.req = some r := hpc ▸ rfl
  obtain ⟨rest', rfl⟩ := hcommon.head_query hreq hloc
  have hcommon' := hcommon.setCopyPc (.copying r) hreq hloc
  refine ⟨k, r :: rest', { hcommon' with }, ?_⟩
  cases hphase with
  | opening d h =>
    obtain ⟨rfl, -⟩ := h.head_query hloc
    refine .opening d { h with
      mainPc := .inr (h.params hreq)
      rows := ⟨h.rows.ready, nofun⟩
      needCalPre := ?_
      locking := nofun
      storing := nofun }
    show d.isCalKpre = (d.isCalKpre && (s.qReady 0 || true))
    rw [Bool.or_true, Bool.and_true]
  | active topk keys d h =>
    obtain ⟨-, -, hlayer⟩ := h.head_query hloc
    refine .active topk keys d { h with needCalPre := ?_, query := fun htopk => ?_ }
    · show (if r.layerId = 0 then r.needCalKpre else s.needCalPre) = keys
      rw [if_neg hlayer]
      exact h.needCalPre
    · obtain ⟨hd, hparams, hrows, hasked⟩ := h.query htopk
      exact ⟨hd, hparams, ⟨hrows.ready, nofun⟩, hasked⟩

theorem Inv.copyRows (h : Inv last s) (hpc : s.copyPc = .copying r) :
    Inv last { s.copyRows r with copyPc := .setTopkDataReady r } := by
  obtain ⟨k, rest, hcommon, hphase⟩ := h
  have hreq : s.copyPc.req = some r := hpc ▸ rfl
  have hloc : r.locations ≠ [] := by
    have hok := hcommon.copyPc
    rw [hpc] at hok
    exact hok
  obtain ⟨rest', rfl⟩ := hcommon.head_query hreq hloc
  have hcommon' := hcommon.setCopyPc (.setTopkDataReady r) hreq hloc
  have hbuffer : ∀ i < r.locations.length, s.gsaQCache r.layerId i = k := by
    intro i hi
    rw [hcommon.rows r (List.mem_append_left _ (Option.mem_toList.mpr hreq)) i hi]
    exact hcommon.query r List.mem_cons_self hloc
  refine ⟨k, r :: rest', { hcommon' with }, ?_⟩
  cases hphase with
  | opening d h =>
    have hpre := h.needCalPre
    rw [hpc] at hpre
    have hsame : r.locations = d.locations := by
      rw [(h.head_query hloc).1]
      rfl
    exact .opening d { h with
      mainPc := .inr (h.params hreq)
      rows := h.rows.copyRows (hsame ▸ hbuffer) hsame
      needCalPre := hpre
      locking := nofun
      storing := nofun }
  | active topk keys d h =>
    refine .active topk keys d { h with query := fun htopk => ?_ }
    obtain ⟨hd, hparams, hrows, hasked⟩ := h.query htopk
    have hsame : r.locations = d.locations := by
      rw [(h.head_query hloc).2.1]
      rfl
    exact ⟨hd, hparams, hrows.copyRows (hsame ▸ hbuffer) hsame, hasked⟩

theorem Inv.setTopkDataReady (h : Inv last s) (hpc : s.copyPc = .setTopkDataReady r) :
    Inv last { s with
      copyPc := if !s.needCalPre && r.layerId = 0 then .locking r else .storing r } := by
  obtain ⟨k, rest, hcommon, hphase⟩ := h
  have hreq : s.copyPc.req = some r := hpc ▸ rfl
  have hloc : r.locations ≠ [] := by
    have hok := hcommon.copyPc
    rw [hpc] at hok
    exact hok
  obtain ⟨rest', rfl⟩ := hcommon.head_query hreq hloc
  refine ⟨k, r :: rest', ?_, ?_⟩
  · split_ifs with hlock
    · rw [Bool.and_eq_true] at hlock
      exact hcommon.setCopyPc (.locking r) hreq ⟨hloc, of_decide_eq_true hlock.2⟩
    · exact hcommon.setCopyPc (.storing r) hreq hloc
  cases hphase with
  | opening d h =>
    have hpre : s.needCalPre = d.isCalKpre := by
      rw [h.needCalPre, hpc]
      simp [CopyPc.started]
    have hrows := h.rows
    rw [hpc] at hrows
    have hpre' : s.needCalPre = (d.isCalKpre && (s.qReady 0 || true)) := by
      rw [hpre, Bool.or_true, Bool.and_true]
    cases hkeys : d.isCalKpre with
    | false =>
      have hlock : (!s.needCalPre && decide (r.layerId = 0)) = true := by
        rw [hpre, hkeys, (h.head_query hloc).1]
        rfl
      rw [if_pos hlock]
      exact .opening d { h with
        mainPc := .inr (h.params hreq)
        rows := ⟨hrows.ready, hrows.copied⟩
        needCalPre := hpre'
        locking := fun _ _ => hkeys
        storing := nofun }
    | true =>
      have hlock : ¬ (!s.needCalPre && decide (r.layerId = 0)) = true := by
        rw [hpre, hkeys]
        exact Bool.false_ne_true
      rw [if_neg hlock]
      exact .opening d { h with
        mainPc := .inr (h.params hreq)
        rows := ⟨hrows.ready, hrows.copied⟩
        needCalPre := hpre'
        locking := nofun
        storing := fun _ _ => hkeys }
  | active topk keys d h =>
    obtain ⟨-, -, hlayer⟩ := h.head_query hloc
    rw [decide_eq_false hlayer, Bool.and_false, if_neg Bool.false_ne_true]
    refine .active topk keys d { h with query := fun htopk => ?_ }
    obtain ⟨hd, hparams, hrows, hasked⟩ := h.query htopk
    rw [hpc] at hrows
    exact ⟨hd, hparams, ⟨hrows.ready, hrows.copied⟩, hasked⟩

theorem Inv.lockQuery (h : Inv last s) (hpc : s.copyPc = .locking r) (hcalc : s.calcPc = .waiting) :
    Inv last ((s.clearTopkFlag r).storeQReady r) := by
  obtain ⟨k, rest, hcommon, hphase⟩ := h
  have hreq : s.copyPc.req = some r := hpc ▸ rfl
  obtain ⟨hloc, hzero⟩ : r.locations ≠ [] ∧ r.layerId = 0 := by
    have hok := hcommon.copyPc
    rw [hpc] at hok
    exact hok
  obtain ⟨rest', rfl⟩ := hcommon.head_query hreq hloc
  have hstep : r.step = k := hcommon.query r List.mem_cons_self hloc
  refine ⟨k, rest', { hcommon.finish hreq with }, ?_⟩
  cases hphase with
  | opening d h =>
    have hkeys : d.isCalKpre = false := h.locking r hpc
    have hmain := h.params hreq
    refine .active true false d
      { mainPc := hmain.1
        progress := ?_
        opened := fun r' hr' => ?_
        needed := .inl rfl
        needCalTopk := h.needCalTopk
        needCalPre := ?_
        topkFlag := rfl
        qStep := update_flagStep h.qStep hstep
        kStep := fun layer hready => ?_
        calcPc := ?_
        query := fun _ => ⟨h.locations, hmain.2, h.rows.storeQ (hpc ▸ rfl), ?_⟩
        served := nofun }
    · have hprogress := h.progress.storeQ (fun _ => h.locations) hloc
      rw [hkeys] at hprogress
      exact hprogress
    · rw [(h.head_query hloc).2, hkeys] at hr'
      exact layerId_upperRequests hr'
    · show s.needCalPre = false
      rw [h.needCalPre, hkeys, Bool.false_and]
    · cases (h.kReady layer).symm.trans hready
    · show PassOk last _ k true false s.calcPc
      rw [hcalc]
      exact hstep
    · show Asked last s.runs s.asked k d s.calcPc.computed
      rw [hcalc]
      exact h.asked
  | active topk keys d h => exact absurd hzero (h.opened r List.mem_cons_self)

theorem Inv.storeQuery (h : Inv last s) (hpc : s.copyPc = .storing r) :
    Inv last (s.storeQReady r) := by
  obtain ⟨k, rest, hcommon, hphase⟩ := h
  have hreq : s.copyPc.req = some r := hpc ▸ rfl
  have hloc : r.locations ≠ [] := by
    have hok := hcommon.copyPc
    rw [hpc] at hok
    exact hok
  obtain ⟨rest', rfl⟩ := hcommon.head_query hreq hloc
  have hstep : r.step = k := hcommon.query r List.mem_cons_self hloc
  refine ⟨k, rest', { hcommon.finish hreq with }, ?_⟩
  cases hphase with
  | opening d h =>
    have hkeys : d.isCalKpre = true := h.storing r hpc
    obtain ⟨hr, hrest⟩ := h.head_query hloc
    refine .opening d { h with
      mainPc := .inr (h.params hreq)
      progress := h.progress.storeQ (fun _ => h.locations) hloc
      rest := .inr ⟨hkeys, ?_⟩
      qStep := update_flagStep h.qStep hstep
      rows := h.rows.storeQ (hpc ▸ rfl)
      needCalPre := ?_
      locking := nofun
      storing := nofun }
    · rw [hrest, hkeys]
      rfl
    · show s.needCalPre = (d.isCalKpre && (update s.qReady r.layerId true 0 || false))
      have hzero : (0 : Nat) = r.layerId := by rw [hr]; rfl
      rw [h.needCalPre, hpc, hzero, update_self]
      exact congrArg (d.isCalKpre && ·) (Bool.or_true _)
  | active topk keys d h =>
    obtain ⟨htopk, -⟩ := h.head_query hloc
    obtain ⟨hd, hparams, hrows, hasked⟩ := h.query htopk
    exact .active topk keys d { h with
      progress := h.progress.storeQ (fun _ => hd) hloc
      opened := fun r' hr' => h.opened r' (List.mem_cons_of_mem _ hr')
      qStep := update_flagStep h.qStep hstep
      calcPc := h.calcPc.mono rfl rfl (update_ready _ _) fun _ hk => hk
      query := fun _ => ⟨hd, hparams, hrows.storeQ (hpc ▸ rfl), hasked⟩ }

theorem Inv.lockKey (h : Inv last s) (hpc : s.copyPc = .popped r) (hloc : r.locations = [])
    (hcalc : s.calcPc = .waiting) (hzero : r.layerId = 0) (hdue : s.checkDataStatus = false) :
    Inv last ({ s with needCalPre := true }.clearTopkFlag r |>.storeKReady r) := by
  obtain ⟨k, rest, hcommon, hphase⟩ := h
  have hreq : s.copyPc.req = some r := hpc ▸ rfl
  cases hphase with
  | opening d h =>
    obtain ⟨r', rest', rfl, -⟩ := h.first
    rcases hcommon.head hreq with ⟨_, heq⟩ | ⟨heq, -⟩
    · cases heq
      obtain ⟨hr, hkeys, hrest⟩ := h.head_key hloc
      have hmain := h.params hreq
      have hstep : r.step = k := by rw [hr]; rfl
      refine ⟨k, rest', { hcommon.finish hreq with }, .active true true d
        { mainPc := hmain.1
          progress := ?_
          opened := fun r' hr' => layerId_upperRequests (hrest ▸ hr')
          needed := .inl rfl
          needCalTopk := h.needCalTopk
          needCalPre := rfl
          topkFlag := rfl
          qStep := h.qStep
          kStep := update_flagStep (fun layer hready => ?_) hstep
          calcPc := ?_
          query := fun _ => ⟨h.locations, hmain.2, ⟨h.rows.ready, nofun⟩, ?_⟩
          served := nofun }⟩
      · have hprogress := h.progress.storeK (fun _ => h.locations) hloc
        rw [hkeys] at hprogress
        exact hprogress
      · cases (h.kReady layer).symm.trans hready
      · show PassOk last _ k true true s.calcPc
        rw [hcalc]
        exact hstep
      · show Asked last s.runs s.asked k d s.calcPc.computed
        rw [hcalc]
        exact h.asked
    · cases heq
  | active topk keys d h => cases h.due.symm.trans hdue
  | idle reqs hmain h =>
    obtain ⟨step, rfl, hcommon'⟩ := hcommon.next hreq
    have hprogress : Progress last step false true [] (requests last false true [] step)
        s.qReady s.kReady := .start h.qReady h.kReady
    rw [requests_eq] at hprogress
    refine ⟨step, _, { hcommon' with }, .active false true ⟨[], true, [], []⟩
      { mainPc := ⟨reqs, hmain⟩
        progress := hprogress.storeK nofun rfl
        opened := fun r' hr' => layerId_upperRequests hr'
        needed := .inr rfl
        needCalTopk := h.needCalTopk
        needCalPre := rfl
        topkFlag := rfl
        qStep := fun layer hready => ?_
        kStep := update_flagStep (r := copyK step 0) (fun layer hready => ?_) rfl
        calcPc := ?_
        query := nofun
        served := fun _ => h.served }⟩
    · cases (h.qReady layer).symm.trans hready
    · cases (h.kReady layer).symm.trans hready
    · show PassOk last _ step false true s.calcPc
      rw [hcalc]
      rfl
  | preparing d hprepare h =>
    rw [hprepare.copyPc] at hpc
    cases hpc
  | resetting topk keys h =>
    have hpass := h.calcPc
    rw [hcalc] at hpass
    exact hpass.elim

theorem Inv.storeKey (h : Inv last s) (hpc : s.copyPc = .popped r) (hloc : r.locations = [])
    (hlayer : r.layerId ≠ 0) : Inv last (s.storeKReady r) := by
  obtain ⟨k, rest, hcommon, hphase⟩ := h
  have hreq : s.copyPc.req = some r := hpc ▸ rfl
  rcases hcommon.head hreq with ⟨rest', rfl⟩ | ⟨-, later, -, hlater⟩
  · cases hphase with
    | opening d h =>
      rw [(h.head_key hloc).1] at hlayer
      exact absurd rfl hlayer
    | active topk keys d h =>
      have hd : topk = true → d.locations ≠ [] := fun htopk => (h.query htopk).1
      have hstep : r.step = k := by
        rcases (h.progress.head hd).2.2 with ⟨_, hr⟩ | ⟨_, hr⟩
        · rw [hr]
          rfl
        · rw [hr]
          rfl
      refine ⟨k, rest', { hcommon.finish hreq with }, .active topk keys d { h with
        progress := h.progress.storeK hd hloc
        opened := fun r' hr' => h.opened r' (List.mem_cons_of_mem _ hr')
        kStep := update_flagStep h.kStep hstep
        calcPc := h.calcPc.mono rfl rfl (fun _ hq => hq) (update_ready _ _)
        query := fun htopk => ?_ }⟩
      obtain ⟨hd, hparams, hrows, hasked⟩ := h.query htopk
      exact ⟨hd, hparams, ⟨hrows.ready, nofun⟩, hasked⟩
  · obtain ⟨step, -, rfl, -⟩ := hlater.cons
    exact absurd rfl hlayer

theorem Inv.copyData (h : Inv last s) (hin : InTime last s .copy) (hstep : s.copyData = some s') :
    Inv last s' := by
  unfold State.copyData at hstep
  split at hstep
  · -- idle
    next hpc =>
    split at hstep
    · cases hstep
    · next r copyQueue hqueue =>
      cases hstep
      obtain ⟨k, rest, hcommon, hphase⟩ := h
      exact ⟨k, rest, hcommon.pop hpc hqueue, hphase.pop hpc hqueue⟩
  · -- popped
    next r hpc =>
    by_cases hloc : r.locations = []
    · rw [if_pos hloc] at hstep
      unfold State.setKpreDataReady at hstep
      split_ifs at hstep with hzero hcalc
      · cases hstep
        refine h.lockKey hpc hloc hcalc hzero (hin ?_)
        unfold State.opens
        rw [hpc]
        simp only [hloc, hzero, List.isEmpty_nil, decide_true, Bool.and_self]
      · cases hstep
        exact h.storeKey hpc hloc hzero
    · rw [if_neg hloc] at hstep
      cases hstep
      exact h.startQuery hpc hloc
  · -- copying
    next r hpc =>
    cases hstep
    exact h.copyRows hpc
  · -- setTopkDataReady
    next r hpc =>
    cases hstep
    exact h.setTopkDataReady hpc
  · -- locking
    next r hpc =>
    split_ifs at hstep with hcalc
    cases hstep
    exact h.lockQuery hpc hcalc
  · -- storing
    next r hpc =>
    cases hstep
    exact h.storeQuery hpc

end UnifiedCache.Gsa.CalKpreAndTopk
