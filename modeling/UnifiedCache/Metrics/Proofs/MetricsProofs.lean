import UnifiedCache.Metrics.Metrics
import Mathlib.Algebra.BigOperators.Group.Finset.Piecewise
import Mathlib.Tactic.Abel

/-!
# Proofs: metrics

Whatever a measure adds up of the statistics, a locked section of a writer adds the update to it and a
locked section of a collector moves it, wherever the switches stand. The order of the gauges needs more:
a writer that is late writes into an inner buffer that was collected, from where it comes after newer
values.
-/

open Function Lib

namespace UnifiedCache.Metrics

variable {ν τ κ V : Type} [DecidableEq ν] [DecidableEq τ] [DecidableEq κ] [AddCommMonoid V]
variable {maxVectorLen : Nat} {s s' : State ν τ κ V} {e : Event ν τ κ V}

/-! ## The steps -/

section Steps

variable {c : κ} {t : τ} {name : ν} {value : V}

theorem step_load (h : s.step maxVectorLen (.load t name value) = some s') : s' = s ∨
    ∃ type, s' = { s with
      writers := update s.writers t (some ⟨type, name, value, s.writeIdx t⟩) } := by
  obtain ⟨_, h⟩ := Option.ite_none_right_eq_some.mp h
  cases htype : s.statsType name with
  | none =>
    rw [htype] at h
    exact .inl (Option.some.inj h).symm
  | some type =>
    rw [htype] at h
    exact .inr ⟨type, (Option.some.inj h).symm⟩

theorem step_begin (h : s.step maxVectorLen (.begin c) = some s') :
    (s.collectors c).pc = .idle ∧ s' = s.move c (.next 0) := by
  dsimp only [State.step] at h
  split at h
  · next hpc => exact ⟨hpc, (Option.some.inj h).symm⟩
  · cases h

theorem step_loadIdx (h : s.step maxVectorLen (.loadIdx c) = some s') :
    ∃ k t, (s.collectors c).pc = .next k ∧ s.buffers[k]? = some t ∧
      s' = s.move c (.loaded k (s.writeIdx t)) := by
  dsimp only [State.step] at h
  split at h
  · next k hpc =>
    obtain ⟨t, ht, rfl⟩ := Option.map_eq_some_iff.mp h
    exact ⟨k, t, hpc, ht, rfl⟩
  · cases h

theorem step_exchange (h : s.step maxVectorLen (.exchange c) = some s') :
    ∃ k idx t, (s.collectors c).pc = .loaded k idx ∧ s.buffers[k]? = some t ∧
      s' = { s.move c (.exchanged k (s.writeIdx t)) with
        writeIdx := update s.writeIdx t (!idx) } := by
  dsimp only [State.step] at h
  split at h
  · next k idx hpc =>
    obtain ⟨t, ht, rfl⟩ := Option.map_eq_some_iff.mp h
    exact ⟨k, idx, t, hpc, ht, rfl⟩
  · cases h

theorem step_collect (h : s.step maxVectorLen (.collect c) = some s') :
    ∃ k oldIdx t, (s.collectors c).pc = .exchanged k oldIdx ∧ s.buffers[k]? = some t ∧
      s' = { s with
        innerBufs := update s.innerBufs (t, oldIdx) .empty
        collectors := update s.collectors c
          ⟨.next (k + 1), (s.collectors c).total.merge (s.innerBufs (t, oldIdx))⟩
        reads := s.reads ++ [(t, s.innerBufs (t, oldIdx))] } := by
  dsimp only [State.step] at h
  split at h
  · next k oldIdx hpc =>
    obtain ⟨t, ht, rfl⟩ := Option.map_eq_some_iff.mp h
    exact ⟨k, oldIdx, t, hpc, ht, rfl⟩
  · cases h

theorem step_done (h : s.step maxVectorLen (.done c) = some s') :
    ∃ k, (s.collectors c).pc = .next k ∧ s' = { s with
      collectors := update s.collectors c ⟨.idle, .empty⟩
      results := s.results ++ [(s.collectors c).total] } := by
  dsimp only [State.step] at h
  split at h
  · next k hpc => exact ⟨k, hpc, (Option.some.inj (Option.ite_none_right_eq_some.mp h).2).symm⟩
  · cases h

end Steps

/-! ## Conservation -/

theorem exists_sum_update {ι β M : Type} [Fintype ι] [DecidableEq ι] [AddCommMonoid M] (f : β → M)
    (g : ι → β) (a : ι) :
    ∃ rest, ∑ x, f (g x) = f (g a) + rest ∧ ∀ v, ∑ x, f (update g a v x) = f v + rest := by
  refine ⟨∑ x ∈ Finset.univ.erase a, f (g x), ?_, fun v => ?_⟩
  · exact (Finset.add_sum_erase _ (fun x => f (g x)) (Finset.mem_univ a)).symm
  · rw [← Finset.add_sum_erase _ (fun x => f (update g a v x)) (Finset.mem_univ a),
      update_self]
    refine congrArg (f v + ·) (Finset.sum_congr rfl fun x hx => ?_)
    rw [update_of_ne (Finset.ne_of_mem_erase hx)]

/-- What adds up over the statistics: an update adds `δ`. -/
structure Measures {M : Type} [AddCommMonoid M] (maxVectorLen : Nat) (μ : Stats ν τ V → M)
    (δ : Update ν τ V → M) : Prop where
  empty : μ .empty = 0
  merge : ∀ total buf, μ (.merge total buf) = μ total + μ buf
  write : ∀ buf type name entry, μ (.write maxVectorLen buf type name entry) =
    μ buf + δ ⟨type, name, entry, (buf.histogramStats name).length⟩

section Conserved

variable [Fintype τ] [Fintype κ] {M : Type} [AddCommMonoid M] {μ : Stats ν τ V → M}
  {δ : Update ν τ V → M}

omit [DecidableEq ν] [DecidableEq τ] [AddCommMonoid V] in
theorem held_move (c : κ) (pc : CollectorPc) : (s.move c pc).held μ = s.held μ := by
  have htotal : ∀ c', ((s.move c pc).collectors c').total = (s.collectors c').total := by
    intro c'
    unfold State.move
    dsimp only
    by_cases hc : c' = c
    · rw [hc, update_self]
    · rw [update_of_ne hc]
  unfold State.held
  simp only [htotal]
  rfl

/-- **Step lemma.** -/
theorem held_step (hμ : Measures maxVectorLen μ δ) (hs : s.held μ = (s.made.map δ).sum)
    (h : s.step maxVectorLen e = some s') : s'.held μ = (s'.made.map δ).sum := by
  cases e with
  | createStats name type =>
    obtain rfl := Option.some.inj h
    exact hs
  | register t =>
    obtain ⟨_, h⟩ := Option.ite_none_right_eq_some.mp h
    obtain rfl := Option.some.inj h
    exact hs
  | load t name value =>
    rcases step_load h with rfl | ⟨type, rfl⟩
    · exact hs
    · exact hs
  | write t =>
    obtain ⟨p, _, rfl⟩ := Option.map_eq_some_iff.mp h
    obtain ⟨rest, hbefore, hafter⟩ := exists_sum_update μ s.innerBufs (t, p.writeIdx)
    unfold State.held at hs ⊢
    dsimp only
    rw [hafter, hμ.write, List.map_append, List.sum_append, ← hs, hbefore, List.map_singleton,
      List.sum_singleton]
    abel
  | begin c =>
    rw [(step_begin h).2, held_move]
    exact hs
  | loadIdx c =>
    obtain ⟨k, t, _, _, rfl⟩ := step_loadIdx h
    rw [held_move]
    exact hs
  | exchange c =>
    obtain ⟨k, idx, t, _, _, rfl⟩ := step_exchange h
    exact (held_move c (.exchanged k (s.writeIdx t))).trans hs
  | collect c =>
    obtain ⟨k, oldIdx, t, _, _, rfl⟩ := step_collect h
    obtain ⟨rest, hbefore, hafter⟩ := exists_sum_update μ s.innerBufs (t, oldIdx)
    obtain ⟨others, htotal, htotal'⟩ :=
      exists_sum_update (fun collector : Collector ν τ V => μ collector.total) s.collectors c
    unfold State.held at hs ⊢
    dsimp only
    rw [hafter, htotal', hμ.empty, hμ.merge, ← hs, hbefore, htotal]
    abel
  | done c =>
    obtain ⟨k, _, rfl⟩ := step_done h
    obtain ⟨others, htotal, htotal'⟩ :=
      exists_sum_update (fun collector : Collector ν τ V => μ collector.total) s.collectors c
    unfold State.held at hs ⊢
    dsimp only
    rw [htotal', hμ.empty, List.map_append, List.sum_append, List.map_singleton, List.sum_singleton,
      ← hs, htotal]
    abel

/-- **Run lemma.** What was collected and what is still there are the updates that were made. -/
theorem held_eq (hμ : Measures maxVectorLen μ δ)
    (h : (machine maxVectorLen : Machine (State ν τ κ V) _).Reachable s) :
    s.held μ = (s.made.map δ).sum := by
  refine h.inv (I := fun s => s.held μ = (s.made.map δ).sum) ?_ fun _ _ _ hs _ hstep =>
    held_step hμ hs hstep
  rintro s rfl
  unfold State.held State.start
  dsimp only
  rw [hμ.empty, Finset.sum_const_zero, Finset.sum_const_zero]
  exact (add_zero _).trans (add_zero _)

omit [DecidableEq τ] [Fintype τ] in
theorem measures_counter (maxVectorLen : Nat) (name : ν) :
    Measures maxVectorLen (fun stats : Stats ν τ V => stats.counterStats name)
      fun u => if u.type = .counter ∧ u.name = name then u.entry.value else 0 where
  empty := rfl
  merge _ _ := rfl
  write buf type name' entry := by
    cases type with
    | counter =>
      show update _ _ _ _ = _ + ite (_ ∧ name' = name) _ _
      by_cases hname : name' = name
      · rw [hname, update_self, if_pos ⟨rfl, rfl⟩]
      · rw [update_of_ne (Ne.symm hname), if_neg fun h => hname h.2, add_zero]
    | gauge =>
      rw [if_neg (fun h => nomatch h.1), add_zero]
      rfl
    | histogram =>
      rw [if_neg (fun h => nomatch h.1), add_zero]
      unfold Stats.write
      dsimp only
      split_ifs
      · rfl
      · rfl

omit [DecidableEq τ] [Fintype τ] in
theorem measures_histogram (maxVectorLen : Nat) (name : ν) :
    Measures maxVectorLen
      (fun stats : Stats ν τ V => (stats.histogramStats name : Multiset (Entry τ V)))
      fun u => if u.type = .histogram ∧ u.name = name ∧ u.held < maxVectorLen then {u.entry} else 0 where
  empty := rfl
  merge _ _ := rfl
  write buf type name' entry := by
    cases type with
    | counter | gauge =>
      rw [if_neg (fun h => nomatch h.1), add_zero]
      rfl
    | histogram =>
      unfold Stats.write
      dsimp only
      by_cases hroom : (buf.histogramStats name').length < maxVectorLen
      · rw [if_pos hroom]
        dsimp only
        by_cases hname : name' = name
        · rw [hname] at hroom ⊢
          rw [update_self, if_pos ⟨rfl, rfl, hroom⟩, ← Multiset.coe_add]
          rfl
        · rw [update_of_ne (Ne.symm hname), if_neg fun h => hname h.2.1, add_zero]
      · rw [if_neg hroom, if_neg fun h => hroom h.2.2, add_zero]

theorem countersOk_of_reachable (h : (machine maxVectorLen).Reachable s) : CountersOk s := fun name =>
  held_eq (measures_counter maxVectorLen name) h

theorem sum_map_singleton {α β : Type} (l : List α) (p : α → Prop) [DecidablePred p] (f : α → β) :
    (l.map fun a => if p a then ({f a} : Multiset β) else 0).sum = ((l.filter p).map f : List β) := by
  induction l with
  | nil => rfl
  | cons a l ih =>
    rw [List.map_cons, List.sum_cons, ih]
    by_cases ha : p a
    · rw [if_pos ha, List.filter_cons_of_pos (p := fun a => decide (p a)) (decide_eq_true ha)]
      rfl
    · rw [if_neg ha, zero_add, List.filter_cons_of_neg (p := fun a => decide (p a))
        (by rw [decide_eq_true_iff]; exact ha)]

omit [Fintype τ] [Fintype κ] in
theorem stamps_eq (h : (machine maxVectorLen).Reachable s) :
    s.made.map (fun u => u.entry.stamp) = List.range s.made.length := by
  refine h.inv (I := fun s => s.made.map (fun u => u.entry.stamp) = List.range s.made.length) ?_ ?_
  · rintro s rfl
    rfl
  · intro s e s' hs _ hstep
    change s.step maxVectorLen e = some s' at hstep
    cases e with
    | write t =>
      obtain ⟨p, _, rfl⟩ := Option.map_eq_some_iff.mp hstep
      dsimp only
      rw [List.map_append, hs, List.length_append, List.length_singleton, List.range_succ]
      rfl
    | createStats name type =>
      obtain rfl := Option.some.inj hstep
      exact hs
    | register t =>
      obtain ⟨_, hstep⟩ := Option.ite_none_right_eq_some.mp hstep
      obtain rfl := Option.some.inj hstep
      exact hs
    | load t name value =>
      rcases step_load hstep with rfl | ⟨type, rfl⟩
      · exact hs
      · exact hs
    | begin c =>
      rw [(step_begin hstep).2]
      exact hs
    | loadIdx c =>
      obtain ⟨k, t, _, _, rfl⟩ := step_loadIdx hstep
      exact hs
    | exchange c =>
      obtain ⟨k, idx, t, _, _, rfl⟩ := step_exchange hstep
      exact hs
    | collect c =>
      obtain ⟨k, oldIdx, t, _, _, rfl⟩ := step_collect hstep
      exact hs
    | done c =>
      obtain ⟨k, _, rfl⟩ := step_done hstep
      exact hs

theorem histogramsOk_of_reachable (h : (machine maxVectorLen).Reachable s) :
    HistogramsOk maxVectorLen s := by
  intro name
  have hheld : s.held (fun stats => (stats.histogramStats name : Multiset (Entry τ V))) =
      ((s.made.filter fun u => u.type = .histogram ∧ u.name = name ∧ u.held < maxVectorLen).map
        Update.entry : List (Entry τ V)) := by
    rw [held_eq (measures_histogram maxVectorLen name) h]
    exact sum_map_singleton _ _ _
  refine ⟨hheld, ?_⟩
  rw [hheld, Multiset.coe_nodup]
  have hentries : (s.made.map Update.entry).Nodup := by
    refine List.Nodup.of_map Entry.stamp ?_
    rw [List.map_map]
    exact stamps_eq h ▸ List.nodup_range
  exact hentries.sublist (List.filter_sublist.map _)

end Conserved

/-! ## The order of the gauges -/

/-- The gauges of the inner buffers are newer than what was collected. -/
structure Stamps (s : State ν τ κ V) : Prop where
  lt : ∀ place name e, (s.innerBufs place).gaugeStats name = some e → e.stamp < s.made.length
  read : ∀ t name, ∀ e ∈ s.collectedGauge t name, e.stamp < s.made.length ∧
    ∀ i e', (s.innerBufs (t, i)).gaugeStats name = some e' → e.stamp < e'.stamp
  ordered : GaugesOk s

/-- A collector has switched the buffer of a thread and not yet collected it. -/
def Switched (s : State ν τ κ V) (t : τ) : Prop :=
  ∃ c k i, (s.collectors c).pc = .exchanged k i ∧ s.buffers[k]? = some t

/-- The inner buffer that is not to be written has no gauges, or older ones while it is to be collected.
A writer that is late finds no newer gauges. -/
structure Switching (s : State ν τ κ V) : Prop where
  loaded : ∀ c k idx, (s.collectors c).pc = .loaded k idx →
    ∃ t, s.buffers[k]? = some t ∧ idx = s.writeIdx t
  exchanged : ∀ c k oldIdx, (s.collectors c).pc = .exchanged k oldIdx →
    ∃ t, s.buffers[k]? = some t ∧ oldIdx = !s.writeIdx t
  clean : ∀ t, ¬ Switched s t → ∀ name, (s.innerBufs (t, !s.writeIdx t)).gaugeStats name = none
  older : ∀ t name e e', (s.innerBufs (t, !s.writeIdx t)).gaugeStats name = some e →
    (s.innerBufs (t, s.writeIdx t)).gaugeStats name = some e' → e.stamp < e'.stamp
  late : ∀ t p, s.writers t = some p → p.writeIdx = !s.writeIdx t →
    ∀ name, (s.innerBufs (t, s.writeIdx t)).gaugeStats name = none

section OneCollector

variable [Subsingleton κ]

omit [DecidableEq ν] [DecidableEq τ] [DecidableEq κ] [AddCommMonoid V] in
theorem not_switched {c : κ} {t : τ} (hpc : ∀ k i, (s.collectors c).pc ≠ .exchanged k i) :
    ¬ Switched s t := by
  rintro ⟨c', k, i, hc', _⟩
  rw [Subsingleton.elim c' c] at hc'
  exact hpc k i hc'

omit [DecidableEq ν] [DecidableEq τ] [AddCommMonoid V] in
theorem Switching.move (h : Switching s) {c : κ} {collector : Collector ν τ V}
    {results : List (Stats ν τ V)} (hpc : ∀ k i, (s.collectors c).pc ≠ .exchanged k i)
    (hloaded : ∀ k idx, collector.pc = .loaded k idx →
      ∃ t, s.buffers[k]? = some t ∧ idx = s.writeIdx t)
    (hexchanged : ∀ k i, collector.pc ≠ .exchanged k i) :
    Switching { s with collectors := update s.collectors c collector, results := results } where
  loaded c' k idx hc' := by
    dsimp only at hc'
    rw [Subsingleton.elim c' c, update_self] at hc'
    exact hloaded k idx hc'
  exchanged c' k i hc' := by
    dsimp only at hc'
    rw [Subsingleton.elim c' c, update_self] at hc'
    exact absurd hc' (hexchanged k i)
  clean t _ := h.clean t (not_switched hpc)
  older := h.older
  late := h.late

omit [DecidableEq κ] [Subsingleton κ] in
theorem gauge_after (s : State ν τ κ V) (maxVectorLen : Nat) (t : τ) (p : Pending ν V)
    (entry : Entry τ V) (place : τ × Bool) (name : ν) :
    (update s.innerBufs (t, p.writeIdx) ((s.innerBufs (t, p.writeIdx)).write maxVectorLen p.type
      p.name entry) place).gaugeStats name =
      if place = (t, p.writeIdx) ∧ p.type = .gauge ∧ name = p.name then some entry
      else (s.innerBufs place).gaugeStats name := by
  by_cases hplace : place = (t, p.writeIdx)
  · rw [hplace, update_self]
    cases htype : p.type with
    | counter =>
      rw [if_neg fun h => nomatch h.2.1]
      rfl
    | gauge =>
      show update _ _ _ _ = _
      by_cases hname : name = p.name
      · rw [hname, update_self, if_pos ⟨rfl, rfl, rfl⟩]
      · rw [update_of_ne hname, if_neg fun h => hname h.2.2]
    | histogram =>
      rw [if_neg fun h => nomatch h.2.1]
      unfold Stats.write
      dsimp only
      split_ifs
      · rfl
      · rfl
  · rw [update_of_ne hplace, if_neg fun h => hplace h.1]

omit [Subsingleton κ] in
/-- **Step lemma**: the locked section of a writer. -/
theorem gauge_write (hst : Stamps s) (hsw : Switching s) {t : τ}
    (htimely : ∀ p, s.writers t = some p → p.type = .gauge →
      p.writeIdx = s.writeIdx t ∨ p.writeIdx = !s.writeIdx t ∧ Switched s t)
    (h : s.step maxVectorLen (.write t) = some s') : Stamps s' ∧ Switching s' := by
  obtain ⟨p, hp, rfl⟩ := Option.map_eq_some_iff.mp h
  have hafter := gauge_after s maxVectorLen t p ⟨t, s.made.length, p.value⟩
  have hlength : ∀ u : Update ν τ V, (s.made ++ [u]).length = s.made.length + 1 := fun u =>
    List.length_append
  refine ⟨⟨fun place name e he => ?_, fun t' name e he => ?_, hst.ordered⟩, hsw.loaded, hsw.exchanged,
    fun t' ht' name => ?_, fun t' name e e' he he' => ?_, fun t' p' hp' hlate name => ?_⟩
  · dsimp only at he ⊢
    rw [hlength]
    rw [hafter] at he
    split_ifs at he
    · rw [← Option.some.inj he]
      exact Nat.lt_succ_self _
    · exact Nat.lt_succ_of_lt (hst.lt place name e he)
  · obtain ⟨hlt, hread⟩ := hst.read t' name e he
    refine ⟨?_, fun i e' he' => ?_⟩
    · dsimp only
      rw [hlength]
      exact Nat.lt_succ_of_lt hlt
    · dsimp only at he'
      rw [hafter] at he'
      split_ifs at he'
      · rw [← Option.some.inj he']
        exact hlt
      · exact hread i e' he'
  · -- Nothing is written into a buffer that was collected.
    dsimp only
    rw [hafter, if_neg]
    · exact hsw.clean t' ht' name
    · rintro ⟨hplace, htype, _⟩
      obtain ⟨rfl, hidx⟩ := Prod.mk.inj hplace
      rcases htimely p hp htype with hcurrent | ⟨_, hswitched⟩
      · exact absurd (hidx.trans hcurrent).symm (Bool.self_ne_not _)
      · exact ht' hswitched
  · dsimp only at he he'
    rw [hafter] at he he'
    split_ifs at he with hnew
    · -- A late writer finds no newer gauges.
      obtain ⟨hplace, -, rfl⟩ := hnew
      obtain ⟨rfl, hidx⟩ := Prod.mk.inj hplace
      rw [if_neg fun hcase => Bool.self_ne_not _ ((Prod.mk.inj hcase.1).2.trans hidx.symm),
        hsw.late t' p hp hidx.symm] at he'
      cases he'
    · split_ifs at he'
      · rw [← Option.some.inj he']
        exact hst.lt _ name e he
      · exact hsw.older t' name e e' he he'
  · dsimp only at hp' hlate ⊢
    by_cases ht : t' = t
    · rw [ht, update_self] at hp'
      cases hp'
    · rw [update_of_ne ht] at hp'
      rw [hafter, if_neg fun hcase => ht (Prod.mk.inj hcase.1).1]
      exact hsw.late t' p' hp' hlate name

/-- **Step lemma**: the locked section of the collector. -/
theorem gauge_collect (hst : Stamps s) (hsw : Switching s) {c : κ}
    (h : s.step maxVectorLen (.collect c) = some s') : Stamps s' ∧ Switching s' := by
  obtain ⟨k, oldIdx, t, hpc, hk, rfl⟩ := step_collect h
  obtain ⟨t', hk', hold⟩ := hsw.exchanged c k oldIdx hpc
  obtain rfl := Option.some.inj (hk.symm.trans hk')
  -- What is left of the gauges.
  have hafter : ∀ place name, (update s.innerBufs (t, oldIdx) Stats.empty place).gaugeStats name =
      if place = (t, oldIdx) then none else (s.innerBufs place).gaugeStats name := by
    intro place name
    by_cases hplace : place = (t, oldIdx)
    · rw [hplace, update_self, if_pos rfl]
      rfl
    · rw [update_of_ne hplace, if_neg hplace]
  have hleft : ∀ place name e,
      (update s.innerBufs (t, oldIdx) Stats.empty place).gaugeStats name = some e →
      place ≠ (t, oldIdx) ∧ (s.innerBufs place).gaugeStats name = some e := by
    intro place name e he
    rw [hafter, Option.ite_none_left_eq_some] at he
    exact he
  -- What is collected.
  have hcollected : ∀ t' name, ((s.reads ++ [(t, s.innerBufs (t, oldIdx))]).filterMap fun read =>
      if read.1 = t' then read.2.gaugeStats name else none) = s.collectedGauge t' name ++
        (if t = t' then (s.innerBufs (t, oldIdx)).gaugeStats name else none).toList := by
    intro t' name
    rw [List.filterMap_append]
    refine congrArg (s.collectedGauge t' name ++ ·) ?_
    cases hread : (if t = t' then (s.innerBufs (t, oldIdx)).gaugeStats name else none) with
    | none => exact List.filterMap_cons_none hread
    | some e => exact List.filterMap_cons_some hread
  have htail : ∀ t' name e,
      e ∈ (if t = t' then (s.innerBufs (t, oldIdx)).gaugeStats name else none).toList →
      t = t' ∧ (s.innerBufs (t, oldIdx)).gaugeStats name = some e := by
    intro t' name e he
    rw [Option.mem_toList, Option.ite_none_right_eq_some] at he
    exact he
  refine ⟨⟨fun place name e he => ?_, fun t' name e he => ?_, fun t' name => ?_⟩, fun c' k' idx hc' => ?_,
    fun c' k' i hc' => ?_, fun t' ht' name => ?_, fun t' name e e' he he' => ?_,
    fun t' p hp hlate name => ?_⟩
  · exact hst.lt place name e (hleft place name e he).2
  · have hmem : e ∈ s.collectedGauge t' name ++
        (if t = t' then (s.innerBufs (t, oldIdx)).gaugeStats name else none).toList :=
      hcollected t' name ▸ he
    rcases List.mem_append.mp hmem with hbefore | hnow
    · obtain ⟨hlt, hread⟩ := hst.read t' name e hbefore
      exact ⟨hlt, fun i e' he' => hread i e' (hleft _ name e' he').2⟩
    · obtain ⟨rfl, hgauge⟩ := htail t' name e hnow
      refine ⟨hst.lt _ name e hgauge, fun i e' he' => ?_⟩
      obtain ⟨hplace, he'⟩ := hleft _ name e' he'
      -- The other inner buffer is the one to be written.
      have hi : i = s.writeIdx t := by
        have hne : i ≠ oldIdx := fun heq => hplace (by rw [heq])
        rw [hold] at hne
        exact Bool.not_eq_not.mp hne
      rw [hi] at he'
      rw [hold] at hgauge
      exact hsw.older t name e e' hgauge he'
  · show ((_ : List (Entry τ V)).map Entry.stamp).Pairwise (· < ·)
    rw [show ({ s with
        innerBufs := update s.innerBufs (t, oldIdx) Stats.empty
        collectors := update s.collectors c
          ⟨.next (k + 1), (s.collectors c).total.merge (s.innerBufs (t, oldIdx))⟩
        reads := s.reads ++ [(t, s.innerBufs (t, oldIdx))] } : State ν τ κ V).collectedGauge t' name = _
      from hcollected t' name, List.map_append, List.pairwise_append]
    refine ⟨hst.ordered t' name, ?_, ?_⟩
    · cases (if t = t' then (s.innerBufs (t, oldIdx)).gaugeStats name else none) with
      | none => exact List.Pairwise.nil
      | some e => exact List.pairwise_singleton _ _
    · intro x hx y hy
      obtain ⟨e, he, rfl⟩ := List.mem_map.mp hx
      obtain ⟨e', he', rfl⟩ := List.mem_map.mp hy
      obtain ⟨rfl, hgauge⟩ := htail t' name e' he'
      exact (hst.read t name e he).2 oldIdx e' hgauge
  · dsimp only at hc'
    rw [Subsingleton.elim c' c, update_self] at hc'
    cases hc'
  · dsimp only at hc'
    rw [Subsingleton.elim c' c, update_self] at hc'
    cases hc'
  · dsimp only
    rw [hafter]
    by_cases ht : t' = t
    · rw [ht, hold, if_pos rfl]
    · rw [if_neg fun heq => ht (Prod.mk.inj heq).1]
      refine hsw.clean t' ?_ name
      rintro ⟨c', k', i, hc', hbuffer⟩
      rw [Subsingleton.elim c' c, hpc] at hc'
      cases hc'
      exact ht (Option.some.inj (hbuffer.symm.trans hk))
  · exact hsw.older t' name e e' (hleft _ name e he).2 (hleft _ name e' he').2
  · dsimp only
    rw [hafter, hsw.late t' p hp hlate name, ite_self]

/-- **Step lemma**: the exchange. -/
theorem Switching.exchange (h : Switching s) {c : κ}
    (hstep : s.step maxVectorLen (.exchange c) = some s') : Switching s' := by
  obtain ⟨k, idx, t, hpc, hk, rfl⟩ := step_exchange hstep
  obtain ⟨t', hk', hidx⟩ := h.loaded c k idx hpc
  obtain rfl := Option.some.inj (hk.symm.trans hk')
  subst hidx
  have hclean : ∀ t' name, (s.innerBufs (t', !s.writeIdx t')).gaugeStats name = none := by
    intro t' name
    refine h.clean t' (not_switched (c := c) fun k i hi => ?_) name
    rw [hpc] at hi
    cases hi
  have hidx : ∀ t', t' ≠ t → update s.writeIdx t (!s.writeIdx t) t' = s.writeIdx t' :=
    fun t' ht => update_of_ne ht _ _
  have hself : update s.writeIdx t (!s.writeIdx t) t = !s.writeIdx t := update_self _ _ _
  refine ⟨fun c' k' idx hc' => ?_, fun c' k' i hc' => ?_, fun t' ht' name => ?_,
    fun t' name e e' he he' => ?_, fun t' p hp hlate name => ?_⟩
  · change (update s.collectors c _ c').pc = _ at hc'
    rw [Subsingleton.elim c' c, update_self] at hc'
    cases hc'
  · change (update s.collectors c _ c').pc = _ at hc'
    rw [Subsingleton.elim c' c, update_self] at hc'
    cases hc'
    refine ⟨t, hk, ?_⟩
    dsimp only
    rw [hself, Bool.not_not]
  · have ht : t' ≠ t := by
      rintro rfl
      refine ht' ⟨c, k, s.writeIdx t', ?_, hk⟩
      show (update s.collectors c _ c).pc = _
      rw [update_self]
    dsimp only
    rw [hidx t' ht]
    exact hclean t' name
  · dsimp only at he he'
    by_cases ht : t' = t
    · rw [ht, hself] at he'
      rw [show (s.move c (.exchanged k (s.writeIdx t))).innerBufs = s.innerBufs from rfl, hclean] at he'
      cases he'
    · rw [hidx t' ht] at he
      rw [show (s.move c (.exchanged k (s.writeIdx t))).innerBufs = s.innerBufs from rfl, hclean] at he
      cases he
  · dsimp only at hlate ⊢
    by_cases ht : t' = t
    · rw [ht, hself]
      exact hclean t name
    · rw [hidx t' ht] at hlate ⊢
      exact h.late t' p hp hlate name

/-- **Step lemma.** -/
theorem gauge_step (hst : Stamps s) (hsw : Switching s) (hC : Timely s e)
    (h : s.step maxVectorLen e = some s') : Stamps s' ∧ Switching s' := by
  cases e with
  | createStats name type =>
    obtain rfl := Option.some.inj h
    exact ⟨⟨hst.lt, hst.read, hst.ordered⟩, hsw.loaded, hsw.exchanged, hsw.clean, hsw.older, hsw.late⟩
  | register t =>
    obtain ⟨_, h⟩ := Option.ite_none_right_eq_some.mp h
    obtain rfl := Option.some.inj h
    have happend : ∀ (k : Nat) (t' : τ), s.buffers[k]? = some t' → (s.buffers ++ [t])[k]? = some t' := by
      intro k t' hk
      rw [List.getElem?_append_left (List.getElem?_eq_some_iff.mp hk).1]
      exact hk
    refine ⟨⟨hst.lt, hst.read, hst.ordered⟩, fun c k idx hc => ?_, fun c k i hc => ?_, fun t' ht' => ?_,
      hsw.older, hsw.late⟩
    · obtain ⟨t', hk, hidx⟩ := hsw.loaded c k idx hc
      exact ⟨t', happend k t' hk, hidx⟩
    · obtain ⟨t', hk, hidx⟩ := hsw.exchanged c k i hc
      exact ⟨t', happend k t' hk, hidx⟩
    · refine hsw.clean t' fun ⟨c, k, i, hc, hk⟩ => ht' ⟨c, k, i, hc, happend k t' hk⟩
  | load t name value =>
    rcases step_load h with rfl | ⟨type, rfl⟩
    · exact ⟨hst, hsw⟩
    · refine ⟨⟨hst.lt, hst.read, hst.ordered⟩, hsw.loaded, hsw.exchanged, hsw.clean, hsw.older,
        fun t' p hp hlate => ?_⟩
      dsimp only at hp hlate
      by_cases ht : t' = t
      · subst ht
        rw [update_self] at hp
        rw [← Option.some.inj hp] at hlate
        exact absurd hlate (Bool.self_ne_not _)
      · rw [update_of_ne ht] at hp
        exact hsw.late t' p hp hlate
  | write t =>
    refine gauge_write hst hsw (fun p hp htype => ?_) h
    rcases hC p hp htype with hcurrent | ⟨c, k, hpc, hk⟩
    · exact .inl hcurrent
    · obtain ⟨t', hk', hold⟩ := hsw.exchanged c k _ hpc
      obtain rfl := Option.some.inj (hk.symm.trans hk')
      exact .inr ⟨hold, c, k, _, hpc, hk⟩
  | begin c =>
    obtain ⟨hpc, rfl⟩ := step_begin h
    refine ⟨⟨hst.lt, hst.read, hst.ordered⟩, hsw.move (c := c) ?_ ?_ ?_⟩
    · intro k i hi
      rw [hpc] at hi
      cases hi
    · intro k idx hidx
      cases hidx
    · intro k i hi
      cases hi
  | loadIdx c =>
    obtain ⟨k, t, hpc, hk, rfl⟩ := step_loadIdx h
    refine ⟨⟨hst.lt, hst.read, hst.ordered⟩, hsw.move (c := c) ?_ ?_ ?_⟩
    · intro k i hi
      rw [hpc] at hi
      cases hi
    · intro k' idx hidx
      cases hidx
      exact ⟨t, hk, rfl⟩
    · intro k i hi
      cases hi
  | exchange c =>
    have hsw' := hsw.exchange h
    obtain ⟨k, idx, t, _, _, rfl⟩ := step_exchange h
    exact ⟨⟨hst.lt, hst.read, hst.ordered⟩, hsw'⟩
  | collect c => exact gauge_collect hst hsw h
  | done c =>
    obtain ⟨k, hpc, rfl⟩ := step_done h
    refine ⟨⟨hst.lt, hst.read, hst.ordered⟩, hsw.move (c := c) ?_ ?_ ?_⟩
    · intro k i hi
      rw [hpc] at hi
      cases hi
    · intro k idx hidx
      cases hidx
    · intro k i hi
      cases hi

/-- **Run lemma.** -/
theorem gaugesOk_of_reach (h : (machine maxVectorLen).Reach Timely s) : GaugesOk s := by
  have hinv : Stamps s ∧ Switching s := by
    refine h.inv (I := fun s => Stamps s ∧ Switching s) ?_ fun s e s' hs hC hstep =>
      gauge_step hs.1 hs.2 hC hstep
    rintro s rfl
    refine ⟨⟨fun _ _ _ he => (by cases he), fun _ _ _ he => absurd he List.not_mem_nil, fun _ _ => .nil⟩,
      fun _ _ _ hc => (by cases hc), fun _ _ _ hc => (by cases hc), fun _ _ _ => rfl,
      fun _ _ _ _ he => (by cases he), fun _ _ hp => (by cases hp)⟩
  exact hinv.1.ordered

end OneCollector

/-! ## Main result -/

/-- In every run the counters and the histograms are conserved; with one collector the gauges of a
thread keep their order, if no gauge is written into an inner buffer that was collected. -/
theorem metrics_ok [Fintype τ] [Fintype κ] (maxVectorLen : Nat) :
    (∀ s : State ν τ κ V, (machine maxVectorLen).Reachable s →
      CountersOk s ∧ HistogramsOk maxVectorLen s) ∧
    (Subsingleton κ → ∀ s : State ν τ κ V, (machine maxVectorLen).Reach Timely s → GaugesOk s) :=
  ⟨fun _ h => ⟨countersOk_of_reachable h, histogramsOk_of_reachable h⟩,
    fun _ _ h => gaugesOk_of_reach h⟩

/-- A thread writes a gauge twice, and each value is collected. -/
theorem metrics_ok_two : ∃ s : State Unit Unit Unit Nat, (machine 10).Reach Timely s ∧
    (s.collectedGauge () ()).map Entry.value = [1, 2] ∧ CountersOk s ∧ HistogramsOk 10 s ∧ GaugesOk s := by
  have hcurrent : ∀ (s : State Unit Unit Unit Nat) (e : Event Unit Unit Unit Nat),
      decide (∀ p ∈ s.writers (), p.writeIdx = s.writeIdx ()) = true → Timely s e := by
    intro s e h
    cases e with
    | write t => exact fun p hp _ => .inl (of_decide_eq_true h p hp)
    | _ => exact trivial
  obtain ⟨s, hs, hp⟩ := Machine.exists_reachable_of_run
    (M := (machine 10 : Machine (State Unit Unit Unit Nat) _).guard fun s _ =>
      decide (∀ p ∈ s.writers (), p.writeIdx = s.writeIdx ())) (s := .start)
    (l := [.createStats () .gauge, .register (), .load () () 1, .write (), .begin (), .loadIdx (),
      .exchange (), .collect (), .done (), .load () () 2, .write (), .begin (), .loadIdx (),
      .exchange (), .collect (), .done ()])
    (p := fun s => (s.collectedGauge () ()).map Entry.value = [1, 2]) rfl (by decide)
  have hreach := Machine.Reach.of_guard (C := Timely) (fun s e _ h => hcurrent s e h) hs
  have hok := metrics_ok (ν := Unit) (τ := Unit) (κ := Unit) (V := Nat) 10
  obtain ⟨hcounters, hhistograms⟩ := hok.1 s hreach.reachable
  exact ⟨s, hreach, hp, hcounters, hhistograms, hok.2 inferInstance s hreach⟩

/-- A value that is written late is collected after a newer one. -/
theorem not_gaugesOk_late : ∃ s : State Unit Unit Unit Nat, (machine 10).Reachable s ∧ ¬ GaugesOk s := by
  obtain ⟨s, hs, hp⟩ := Machine.exists_reachable_of_run
    (M := (machine 10 : Machine (State Unit Unit Unit Nat) _)) (s := .start)
    (l := [.createStats () .gauge, .register (), .load () () 1, .begin (), .loadIdx (),
      .exchange (), .collect (), .done (), .write (), .load () () 2, .write (), .begin (),
      .loadIdx (), .exchange (), .collect (), .done (), .begin (), .loadIdx (), .exchange (),
      .collect (), .done ()]) (p := fun s => (s.collectedGauge () ()).map Entry.stamp = [1, 0]) rfl
    (by decide)
  refine ⟨s, hs, fun hok => ?_⟩
  have hpair := hok () ()
  rw [hp] at hpair
  exact absurd hpair (by decide)

end UnifiedCache.Metrics
