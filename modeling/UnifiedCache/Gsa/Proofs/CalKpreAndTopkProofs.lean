import UnifiedCache.Gsa.Proofs.TopkCopyProofs
import UnifiedCache.Gsa.Proofs.TopkPassProofs

/-!
# Proofs: the hand-over of top-k requests

Every step in time keeps the invariant, so what is promised of the hand-over holds in every state of
a run; and while a top-k has not been served, some thread can go on.
-/

open Lib

namespace UnifiedCache.Gsa.CalKpreAndTopk

variable {last k layer : Nat} {topk keys : Bool} {locations : List Int} {rest later : List CopyInfo}
  {qReady kReady : Nat → Bool} {s s' : State} {d : Decode} {r : CopyInfo}
/-! ## Runs -/

theorem Inv.start (last : Nat) : Inv last .start :=
  ⟨0, [],
    { coming := ⟨[], rfl, .nil⟩
      query := nofun
      rows := nofun
      copyPc := trivial
      finished := nofun
      consumed := nofun
      runs := nofun
      asked := nofun },
    .idle [] rfl
      { calcPc := rfl
        needCalTopk := rfl
        needCalPre := rfl
        qReady := fun _ => rfl
        kReady := fun _ => rfl
        topkFlag := rfl
        served := nofun }⟩

theorem Inv.of_reach (h : (machine last).Reach (InTime last) s) : Inv last s := by
  refine h.inv ?_ fun s e s' hinv hin hstep => ?_
  · rintro s rfl
    exact .start last
  · cases e with
    | executeBegin wanted d => exact hinv.executeBegin hin hstep
    | main => exact hinv.goOn hstep
    | copy => exact hinv.copyData hin hstep
    | calculate => exact hinv.calculate hstep

theorem Phase.notDropped (h : Phase last s k rest) :
    ∀ x ∈ s.asked, Served last s.runs x ∨ s.needCalTopk = true ∧ s.asked.head? = some x := by
  have hopen : ∀ {d i}, Asked last s.runs s.asked k d i → s.needCalTopk = true →
      ∀ x ∈ s.asked, Served last s.runs x ∨ s.needCalTopk = true ∧ s.asked.head? = some x := by
    rintro d i ⟨⟨older, hasked, holder⟩, -⟩ hneed x hx
    rw [hasked] at hx ⊢
    rcases List.mem_cons.mp hx with rfl | hx
    · exact .inr ⟨hneed, rfl⟩
    · exact .inl (holder x hx)
  cases h with
  | idle _ _ h => exact fun x hx => .inl (h.served x hx)
  | preparing _ _ h => exact fun x hx => .inl (h.served x hx)
  | opening d h => exact hopen h.asked h.needCalTopk
  | active topk keys d h =>
    cases htopk : topk with
    | true => exact hopen (h.query htopk).2.2.2 (h.needCalTopk.trans htopk)
    | false => exact fun x hx => .inl (h.served htopk x hx)
  | resetting _ _ h => exact fun x hx => .inl (h.served x hx)

theorem Inv.handedOver (h : Inv last s) : HandedOver last s := by
  obtain ⟨k, rest, hcommon, hphase⟩ := h
  exact ⟨hcommon.finished, hphase.notDropped, hcommon.consumed⟩

/-! ## Progress of the threads -/

/-- The steps of the main thread, without its requests. -/
def MainPc.remaining : MainPc → Nat
  | .setRepreSlotMapping _ => 2
  | .setTopkCache _ => 1
  | _ => 0

/-- The steps of the copy thread with its request. -/
def CopyPc.remaining : CopyPc → Nat
  | .idle => 0
  | .popped _ => 4
  | .copying _ => 3
  | .setTopkDataReady _ => 2
  | .locking _ | .storing _ => 1

/-- The steps of the calculate thread to the end of the layers. -/
def CalcPc.remaining (last : Nat) : CalcPc → Nat
  | .waiting => 6 * (last + 1) + 1
  | .layer i => 6 * (last - i) + 6
  | .waitKReady i => 6 * (last - i) + 5
  | .layerTopk i => 6 * (last - i) + 4
  | .waitQReady i => 6 * (last - i) + 3
  | .calculateTopk i => 6 * (last - i) + 2
  | .storeFlag i => 6 * (last - i) + 1
  | _ => 0

/-- The steps of all threads until the pass is over. -/
def State.remaining (last : Nat) (s : State) : Nat :=
  6 * (s.mainPc.ahead last s.decodeStep).length + s.mainPc.remaining + 5 * s.copyQueue.length +
    s.copyPc.remaining + s.calcPc.remaining last

theorem main_progress (last : Nat)
    (hmain : s.mainPc.remaining ≠ 0 ∨ ∃ r reqs, s.mainPc = .forward (r :: reqs)) :
    ∃ s', s.goOn last = some s' ∧ s'.remaining last < s.remaining last := by
  unfold State.goOn
  split
  · next hpc =>
    rw [hpc] at hmain
    rcases hmain with hmain | ⟨_, _, hmain⟩
    · exact absurd rfl hmain
    · cases hmain
  · next hpc =>
    rw [hpc] at hmain
    rcases hmain with hmain | ⟨_, _, hmain⟩
    · exact absurd rfl hmain
    · cases hmain
  · next hpc =>
    refine ⟨_, rfl, ?_⟩
    simp only [State.remaining, hpc, MainPc.ahead, MainPc.remaining]
    omega
  · next hpc =>
    refine ⟨_, rfl, ?_⟩
    simp only [State.remaining, hpc, MainPc.ahead, MainPc.remaining]
    omega
  · next hpc =>
    rw [hpc] at hmain
    rcases hmain with hmain | ⟨_, _, hmain⟩
    · exact absurd rfl hmain
    · cases hmain
  · next r reqs hpc =>
    refine ⟨_, rfl, ?_⟩
    simp only [State.remaining, State.addCopyReq, hpc, MainPc.ahead, MainPc.remaining,
      List.length_cons, List.length_append, List.length_nil]
    omega

theorem copy_progress (last : Nat) (hreq : s.copyPc ≠ .idle ∨ s.copyQueue ≠ [])
    (hlock : s.opens = true → s.calcPc = .waiting) :
    ∃ s', s.copyData = some s' ∧ s'.remaining last < s.remaining last := by
  unfold State.copyData
  split
  · next hpc =>
    split
    · next hqueue =>
      rcases hreq with hreq | hreq
      · exact absurd hpc hreq
      · exact absurd hqueue hreq
    · next r copyQueue hqueue =>
      refine ⟨_, rfl, ?_⟩
      simp only [State.remaining, hpc, hqueue, CopyPc.remaining, List.length_cons]
      omega
  · next r hpc =>
    have hopens : s.opens = (r.locations.isEmpty && decide (r.layerId = 0)) := by
      unfold State.opens
      rw [hpc]
    by_cases hloc : r.locations = []
    · rw [if_pos hloc]
      unfold State.setKpreDataReady
      by_cases hzero : r.layerId = 0
      · rw [if_pos hzero, if_pos (hlock (by rw [hopens, hloc, hzero]; rfl))]
        refine ⟨_, rfl, ?_⟩
        simp only [State.remaining, State.storeKReady, State.clearTopkFlag, hpc, CopyPc.remaining]
        omega
      · rw [if_neg hzero]
        refine ⟨_, rfl, ?_⟩
        simp only [State.remaining, State.storeKReady, hpc, CopyPc.remaining]
        omega
    · rw [if_neg hloc]
      refine ⟨_, rfl, ?_⟩
      simp only [State.remaining, hpc, CopyPc.remaining]
      omega
  · next r hpc =>
    refine ⟨_, rfl, ?_⟩
    simp only [State.remaining, State.copyRows, hpc, CopyPc.remaining]
    omega
  · next r hpc =>
    refine ⟨_, rfl, ?_⟩
    have hless : (if (!s.needCalPre && decide (r.layerId = 0)) = true then CopyPc.locking r
        else CopyPc.storing r).remaining < (CopyPc.setTopkDataReady r).remaining := by
      split_ifs
      · exact Nat.lt_succ_self 1
      · exact Nat.lt_succ_self 1
    simp only [State.remaining, hpc]
    omega
  · next r hpc =>
    have hopens : s.opens = true := by
      unfold State.opens
      rw [hpc]
    rw [if_pos (hlock hopens)]
    refine ⟨_, rfl, ?_⟩
    simp only [State.remaining, State.storeQReady, State.clearTopkFlag, hpc, CopyPc.remaining]
    omega
  · next r hpc =>
    refine ⟨_, rfl, ?_⟩
    simp only [State.remaining, State.storeQReady, hpc, CopyPc.remaining]
    omega

theorem Active.calc_progress (h : Active last s k topk keys d rest) :
    (∃ s', s.calculate last = some s' ∧ s'.remaining last < s.remaining last) ∨ rest ≠ [] := by
  have hpass := h.calcPc
  have hdue := h.due
  unfold State.calculate
  split
  · next hpc =>
    rw [if_pos hdue]
    refine .inl ⟨_, rfl, ?_⟩
    simp only [State.remaining, State.consume, hpc, CalcPc.remaining]
    omega
  · next i hpc =>
    refine .inl ⟨_, rfl, ?_⟩
    have hless : (if s.needCalPre = true then CalcPc.waitKReady i else CalcPc.layerTopk i).remaining
        last < (CalcPc.layer i).remaining last := by
      split_ifs
      · exact Nat.lt_succ_self _
      · simp only [CalcPc.remaining]
        omega
    simp only [State.remaining, hpc]
    omega
  · next i hpc =>
    rw [hpc] at hpass
    obtain ⟨-, hi, -, hkeys⟩ := hpass
    split_ifs with hready
    · refine .inl ⟨_, rfl, ?_⟩
      simp only [State.remaining, State.consume, hpc, CalcPc.remaining]
      omega
    · refine .inr ?_
      rintro rfl
      exact hready ((h.progress.key i).mpr ⟨hi, hkeys, List.not_mem_nil⟩)
  · next i hpc =>
    refine .inl ⟨_, rfl, ?_⟩
    have hless : (if s.needCalTopk = true then CalcPc.waitQReady i else CalcPc.storeFlag i).remaining
        last < (CalcPc.layerTopk i).remaining last := by
      split_ifs
      · exact Nat.lt_succ_self _
      · simp only [CalcPc.remaining]
        omega
    simp only [State.remaining, hpc]
    omega
  · next i hpc =>
    rw [hpc] at hpass
    obtain ⟨-, hi, -, -, htopk⟩ := hpass
    split_ifs with hready
    · refine .inl ⟨_, rfl, ?_⟩
      simp only [State.remaining, State.consume, hpc, CalcPc.remaining]
      omega
    · refine .inr ?_
      rintro rfl
      exact hready ((h.progress.query i).mpr ⟨hi, htopk, List.not_mem_nil⟩)
  · next i hpc =>
    refine .inl ⟨_, rfl, ?_⟩
    simp only [State.remaining, hpc, CalcPc.remaining]
    omega
  · next i hpc =>
    refine .inl ⟨_, rfl, ?_⟩
    have hless : (if i < last then CalcPc.layer (i + 1) else CalcPc.resetReady).remaining last <
        (CalcPc.storeFlag i).remaining last := by
      split_ifs
      · simp only [CalcPc.remaining]
        omega
      · exact Nat.succ_pos _
    simp only [State.remaining, hpc]
    omega
  all_goals
    next hpc =>
    rw [hpc] at hpass
    exact hpass.elim

theorem Common.opens_head (h : Common last k rest s) (hopens : s.opens = true) :
    ∃ r, s.copyPc.req = some r ∧ r.layerId = 0 := by
  have hok := h.copyPc
  unfold State.opens at hopens
  split at hopens
  · next r hpc =>
    rw [Bool.and_eq_true] at hopens
    exact ⟨r, by rw [hpc]; rfl, of_decide_eq_true hopens.2⟩
  · next r hpc =>
    rw [hpc] at hok
    exact ⟨r, by rw [hpc]; rfl, hok.2⟩
  · cases hopens

theorem Inv.progress (h : Inv last s) (hnot : ¬ ∀ x ∈ s.asked, Served last s.runs x) :
    ∃ e s', InTime last s e ∧ (machine last).step s e = some s' ∧ Inv last s' ∧
      s'.remaining last < s.remaining last := by
  have hinv := h
  obtain ⟨k, rest, hcommon, hphase⟩ := h
  obtain ⟨later, hcoming, -⟩ := hcommon.coming
  -- A step of the main or the copy thread, while something is left that the pass needs.
  have hrest : rest ≠ [] → (∃ reqs, s.mainPc = .forward reqs) →
      (s.opens = true → s.calcPc = .waiting ∧ s.checkDataStatus = false) →
      ∃ e s', InTime last s e ∧ (machine last).step s e = some s' ∧ Inv last s' ∧
        s'.remaining last < s.remaining last := by
    rintro hne ⟨reqs, hmain⟩ hopens
    cases reqs with
    | cons r reqs =>
      obtain ⟨s', hstep, hless⟩ := main_progress last (.inr ⟨r, reqs, hmain⟩)
      exact ⟨.main, s', trivial, hstep, hinv.goOn hstep, hless⟩
    | nil =>
      have hreq : s.copyPc ≠ .idle ∨ s.copyQueue ≠ [] := by
        by_contra hidle
        rw [not_or, not_not, not_not] at hidle
        unfold State.coming at hcoming
        rw [hidle.1, hidle.2, hmain] at hcoming
        exact hne (List.append_eq_nil_iff.mp hcoming.symm).1
      obtain ⟨s', hstep, hless⟩ := copy_progress last hreq fun ho => (hopens ho).1
      exact ⟨.copy, s', fun ho => (hopens ho).2, hstep,
        hinv.copyData (fun ho => (hopens ho).2) hstep, hless⟩
  cases hphase with
  | idle _ _ h => exact absurd h.served hnot
  | preparing _ _ h => exact absurd h.served hnot
  | opening d h =>
    rcases h.mainPc with ⟨-, -, hmain⟩ | ⟨hmain, -⟩
    · have hleft : s.mainPc.remaining ≠ 0 := by
        rcases hmain with hmain | ⟨hmain, -⟩
        · rw [hmain]
          exact Nat.succ_ne_zero 1
        · rw [hmain]
          exact Nat.succ_ne_zero 0
      obtain ⟨s', hstep, hless⟩ := main_progress last (.inl hleft)
      exact ⟨.main, s', trivial, hstep, hinv.goOn hstep, hless⟩
    · obtain ⟨r, rest', rfl, -⟩ := h.first
      exact hrest nofun hmain fun _ => ⟨h.calcPc, h.not_due⟩
  | active topk keys d h =>
    rcases h.calc_progress with ⟨s', hstep, hless⟩ | hne
    · exact ⟨.calculate, s', trivial, hstep, hinv.calculate hstep, hless⟩
    · refine hrest hne h.mainPc fun hopens => ?_
      obtain ⟨r, hreq, hzero⟩ := hcommon.opens_head hopens
      rcases hcommon.head hreq with ⟨rest', rfl⟩ | ⟨hnil, -⟩
      · exact absurd hzero (h.opened r List.mem_cons_self)
      · exact absurd hnil hne
  | resetting _ _ h => exact absurd h.served hnot


theorem asked_step {e : Event} (hstep : step last s e = some s') : s.asked <:+ s'.asked := by
  have hsame := List.suffix_refl s.asked
  cases e with
  | executeBegin wanted d =>
    simp only [step, State.executeBegin] at hstep
    split at hstep
    · cases hstep
      exact hsame
    · cases hstep
  | main =>
    simp only [step, State.goOn] at hstep
    split at hstep
    · cases hstep
      exact hsame
    · cases hstep
      exact List.suffix_cons _ _
    · cases hstep
      exact hsame
    · cases hstep
      exact hsame
    · cases hstep
    · cases hstep
      exact hsame
  | copy =>
    simp only [step, State.copyData, State.setKpreDataReady] at hstep
    split at hstep
    · split at hstep
      · cases hstep
      · cases hstep
        exact hsame
    · split at hstep
      · split at hstep
        · split at hstep
          · cases hstep
            exact hsame
          · cases hstep
        · cases hstep
          exact hsame
      · cases hstep
        exact hsame
    · cases hstep
      exact hsame
    · cases hstep
      exact hsame
    · split at hstep
      · cases hstep
        exact hsame
      · cases hstep
    · cases hstep
      exact hsame
  | calculate =>
    simp only [step, State.calculate] at hstep
    split at hstep
    · split at hstep
      · cases hstep
        exact hsame
      · cases hstep
    · cases hstep
      exact hsame
    · split at hstep
      · cases hstep
        exact hsame
      · cases hstep
    · cases hstep
      exact hsame
    · split at hstep
      · cases hstep
        exact hsame
      · cases hstep
    all_goals
      cases hstep
      exact hsame

/-- In every run whose steps are in time, a top-k that is finished has been computed for every layer
on the queries of its own decode step, none is dropped, and a pass takes the flags of its own decode
step only. And the threads can always go on, in time, until all that has been asked for is served.
-/
theorem hand_over (last : Nat) {s : State} (h : (machine last).Reach (InTime last) s) :
    HandedOver last s ∧ ∃ s', ((machine last).after s).Reach (InTime last) s' ∧
      ∀ x ∈ s.asked, Served last s'.runs x := by
  have hinv := Inv.of_reach h
  refine ⟨hinv.handedOver, ?_⟩
  have hprogress : ∀ t, Inv last t ∧ s.asked <:+ t.asked →
      ¬ (∀ x ∈ t.asked, Served last t.runs x) → ∃ e t', InTime last t e ∧
        (machine last).step t e = some t' ∧ (Inv last t' ∧ s.asked <:+ t'.asked) ∧
        t'.remaining last < t.remaining last := by
    rintro t ⟨ht, hasked⟩ hnot
    obtain ⟨e, t', hin, hstep, ht', hless⟩ := ht.progress hnot
    exact ⟨e, t', hin, hstep, ⟨ht', hasked.trans (asked_step hstep)⟩, hless⟩
  obtain ⟨s', hreach, ⟨-, hasked⟩, hserved⟩ :=
    Machine.exists_later (State.remaining last) hprogress ⟨hinv, List.suffix_refl _⟩
  exact ⟨s', hreach, fun x hx => hserved x (hasked.subset hx)⟩

/-- One request with GSA in the batch. -/
def oneRequest (isCalKpre : Bool) : Decode where
  locations := [0]
  isCalKpre := isCalKpre
  repreSlotMapping := [[0]]
  topkLens := [1]

/-- A decode step with a top-k and keys for two layers, then one with keys only; in time. -/
def topkThenKeys : List Event := List.flatten [
  .executeBegin true (oneRequest true) :: List.replicate 8 .main, List.replicate 7 .copy,
  [.calculate, .calculate],
  .executeBegin false (oneRequest true) :: List.replicate 2 .main, List.replicate 8 .copy,
  List.replicate 19 .calculate, List.replicate 3 .copy, List.replicate 15 .calculate,
  [.executeBegin false (oneRequest false)]]

/-- The top-k is finished, and so it has been handed over. -/
theorem hand_over_two_layers : ∃ s, (machine 1).Reach (InTime 1) s ∧
    s.finished = [(1, oneRequest true)] ∧ HandedOver 1 s := by
  obtain ⟨s, hreach, hp⟩ := Machine.exists_reach_of_run (M := machine 1) (C := InTime 1)
    (s := .start) (l := topkThenKeys) (p := fun s => s.finished = [(1, oneRequest true)]) rfl
    (by decide +kernel)
  exact ⟨s, hreach, hp, (hand_over 1 hreach).1⟩

/-- The second top-k is asked for between the last flag of the first one and the write of
`m_needCalTopk` in `ResetReady`. -/
def topkInReset : List Event := List.flatten [
  .executeBegin true (oneRequest false) :: List.replicate 5 .main, List.replicate 5 .copy,
  List.replicate 6 .calculate,
  .executeBegin true (oneRequest false) :: List.replicate 2 .main, List.replicate 5 .calculate,
  List.replicate 3 .main, List.replicate 5 .copy, List.replicate 4 .calculate,
  [.executeBegin false (oneRequest false)]]

/-- The second top-k is dropped: it is reported as finished, and nothing has been computed for it. -/
theorem hand_over_dropped : ∃ s, (machine 0).Reachable s ∧ (2, oneRequest false) ∈ s.finished ∧
    (∀ r ∈ s.runs, r.step ≠ 2) ∧ s.needCalTopk = false ∧ ¬ HandedOver 0 s := by
  obtain ⟨s, hs, hp⟩ := Machine.exists_reachable_of_run (M := machine 0) (s := .start)
    (l := topkInReset) (p := fun s => (2, oneRequest false) ∈ s.finished ∧ (∀ r ∈ s.runs,
      r.step ≠ 2) ∧ s.needCalTopk = false) rfl (by decide +kernel)
  obtain ⟨hfinished, hruns, hneed⟩ := hp
  refine ⟨s, hs, hfinished, hruns, hneed, fun h => ?_⟩
  have hserved := h.finished _ hfinished 0 (Nat.le_refl 0)
  have hnone : (s.runs.filter fun r => r.step = 2 ∧ r.layer = 0) = [] :=
    List.filter_eq_nil_iff.mpr fun r hr hboth => hruns r hr (of_decide_eq_true hboth).1
  cases hnone.symm.trans hserved

end UnifiedCache.Gsa.CalKpreAndTopk
