import UnifiedCache.Gsa.Proofs.TopkPhasesProofs

/-!
# Proofs: the calculate thread

The pass waits for each layer and computes it; after the last one all requests of the decode step
have been taken, and `ResetReady` leaves the flags as they were before.
-/

open Function Lib

namespace UnifiedCache.Gsa.CalKpreAndTopk

variable {last k layer : Nat} {topk keys : Bool} {locations : List Int} {rest later : List CopyInfo}
  {qReady kReady : Nat → Bool} {s s' : State} {d : Decode} {r : CopyInfo}

/-! ## The calculate thread -/

/-- A pass takes a flag of its own decode step. -/
theorem Common.consume (h : Common last k rest s) {step : Nat} (hsame : step = s.pass) :
    Common last k rest (s.consume step) := by
  refine { h with consumed := fun c hc => ?_ }
  rcases List.mem_append.mp hc with hc | hc
  · exact h.consumed c hc
  · rw [List.mem_singleton.mp hc]
    exact hsame

/-- While the calculate thread does not wait, a pass is on or `ResetReady`. -/
theorem Phase.pass_cases (h : Phase last s k rest) (hpc : s.calcPc ≠ .waiting) :
    (∃ topk keys d, Active last s k topk keys d rest) ∨
      rest = [] ∧ ∃ topk keys, Resetting last s k topk keys := by
  cases h with
  | idle _ _ h => exact absurd h.calcPc hpc
  | preparing _ _ h => exact absurd h.calcPc hpc
  | opening _ h => exact absurd h.calcPc hpc
  | active topk keys d h => exact .inl ⟨topk, keys, d, h⟩
  | resetting topk keys h => exact .inr ⟨rfl, topk, keys, h⟩

theorem Inv.active_of (h : Inv last s) {pc : CalcPc} (hpc : s.calcPc = pc) (hne : pc ≠ .waiting)
    (hresets : pc.resets = false) : ∃ k rest topk keys d, Common last k rest s ∧
      Active last s k topk keys d rest ∧ PassOk last s k topk keys pc := by
  obtain ⟨k, rest, hcommon, hphase⟩ := h
  rcases hphase.pass_cases (hpc ▸ hne) with ⟨topk, keys, d, h⟩ | ⟨-, topk, keys, h⟩
  · exact ⟨k, rest, topk, keys, d, hcommon, h, hpc ▸ h.calcPc⟩
  · rw [← hpc, h.calcPc.resets] at hresets
    cases hresets

theorem Inv.resetting_of (h : Inv last s) {pc : CalcPc} (hpc : s.calcPc = pc) (hne : pc ≠ .waiting)
    (hresets : pc.resets = true) : ∃ k topk keys, Common last k [] s ∧
      Resetting last s k topk keys ∧ ResetOk last s topk keys pc := by
  obtain ⟨k, rest, hcommon, hphase⟩ := h
  rcases hphase.pass_cases (hpc ▸ hne) with ⟨topk, keys, d, h⟩ | ⟨rfl, topk, keys, h⟩
  · rw [← hpc, h.calcPc.not_resets] at hresets
    cases hresets
  · exact ⟨k, topk, keys, hcommon, h, hpc ▸ h.calcPc⟩

/-- The pass begins. -/
theorem Inv.beginPass (h : Inv last s) (hpc : s.calcPc = .waiting) (hdue : s.checkDataStatus = true) :
    Inv last ({ s with pass := s.ready, calcPc := .layer 0 }.consume
      (if s.needCalPre then s.kStep 0 else s.qStep 0)) := by
  obtain ⟨k, rest, hcommon, hphase⟩ := h
  have hdue' := hdue
  unfold State.checkDataStatus at hdue'
  have hidle : ¬ Idle last s := by
    intro h
    rw [h.needCalPre, if_neg Bool.false_ne_true, h.qReady] at hdue'
    cases hdue'
  cases hphase with
  | idle _ _ h => exact absurd h hidle
  | preparing _ _ h => exact absurd h hidle
  | opening d h => cases h.not_due.symm.trans hdue
  | active topk keys d h =>
    have hk : s.ready = k := by
      have hpass := h.calcPc
      rw [hpc] at hpass
      exact hpass
    have hcommon' : Common last k rest { s with pass := s.ready, calcPc := .layer 0 } :=
      { hcommon with }
    refine ⟨k, rest, hcommon'.consume ?_, .active topk keys d { h with
      calcPc := ⟨hk, Nat.zero_le _, fun _ hlt => absurd hlt (Nat.not_lt_zero _)⟩
      query := fun htopk => ?_ }⟩
    · show (if s.needCalPre then s.kStep 0 else s.qStep 0) = s.ready
      rw [hk]
      split_ifs at hdue' ⊢
      · exact h.kStep 0 hdue'
      · exact h.qStep 0 hdue'
    · obtain ⟨hd, hparams, hrows, hasked⟩ := h.query htopk
      rw [hpc] at hasked
      exact ⟨hd, hparams, hrows, hasked⟩
  | resetting _ _ h =>
    have hpass := h.calcPc
    rw [hpc] at hpass
    exact hpass.elim

variable {runs : List TopkRun}

/-- A layer that had not been computed leaves the top-k that have been served as they are. -/
theorem Served.append {x : Nat × Decode} {run : TopkRun} (h : Served last runs x)
    (hnone : (runs.filter fun r => r.step = run.step ∧ r.layer = run.layer) = []) :
    Served last (runs ++ [run]) x := by
  intro layer hle
  rw [List.filter_append, h layer hle]
  have hother : ¬ (run.step = x.1 ∧ run.layer = layer) := by
    rintro ⟨hstep, rfl⟩
    have hone := h run.layer hle
    rw [← hstep, hnone] at hone
    cases hone
  rw [List.filter_singleton, decide_eq_false hother, cond_false, List.append_nil]

variable {i : Nat}

/-- One more layer has been computed. -/
theorem Asked.append {asked : List (Nat × Decode)} (h : Asked last runs asked k d i) (hi : i ≤ last) :
    Asked last (runs ++ [d.topkRun k i]) asked k d (i + 1) := by
  have hnone : (runs.filter fun r => r.step = k ∧ r.layer = i) = [] := by
    rw [h.runs i hi, if_neg (Nat.lt_irrefl i)]
  obtain ⟨older, hasked, holder⟩ := h.asked
  refine ⟨⟨older, hasked, fun x hx => (holder x hx).append hnone⟩, fun layer hle => ?_⟩
  rw [List.filter_append, h.runs layer hle, List.filter_singleton]
  by_cases hlayer : layer = i
  · subst hlayer
    have hown : (d.topkRun k layer).step = k ∧ (d.topkRun k layer).layer = layer := ⟨rfl, rfl⟩
    rw [if_neg (Nat.lt_irrefl layer), if_pos (Nat.lt_succ_self layer), decide_eq_true hown, cond_true]
    rfl
  · have hother : ¬ ((d.topkRun k i).step = k ∧ (d.topkRun k i).layer = layer) :=
      fun hboth => hlayer hboth.2.symm
    rw [decide_eq_false hother, cond_false, List.append_nil]
    by_cases hlt : layer < i
    · rw [if_pos hlt, if_pos (Nat.lt_succ_of_lt hlt)]
    · rw [if_neg hlt, if_neg (by omega)]

/-- When all layers have been computed, every top-k has been served. -/
theorem Asked.served {asked : List (Nat × Decode)} (h : Asked last runs asked k d (last + 1)) :
    ∀ x ∈ asked, Served last runs x := by
  obtain ⟨older, rfl, holder⟩ := h.asked
  intro x hx
  rcases List.mem_cons.mp hx with rfl | hx
  · intro layer hle
    rw [h.runs layer hle, if_pos (Nat.lt_succ_of_le hle)]
  · exact holder x hx

/-- `CalculateTopk` runs on the queries and the parameters of decode step `k`. -/
theorem topkRun_eq (hparams : Params s k d) (hrows : Rows s.qReady s.qCache s.copyPc k d)
    (hasked : Asked last runs s.asked k d i) (hready : s.qReady i = true) :
    s.topkRun i = d.topkRun k i := by
  obtain ⟨older, hhead, -⟩ := hasked.asked
  obtain ⟨⟨hidx, hdecode⟩, hmapping, hcache, hlens⟩ := hparams
  unfold State.topkRun Decode.topkRun
  rw [hidx, hdecode, hmapping, hcache, hlens, hhead,
    List.map_congr_left fun row hrow => hrows.ready i hready row hrow]
  rfl

/-- A layer is computed. -/
theorem Inv.calculateTopk (h : Inv last s) (hpc : s.calcPc = .calculateTopk i) :
    Inv last { s with runs := s.runs ++ [s.topkRun i], calcPc := .storeFlag i } := by
  obtain ⟨k, rest, topk, keys, d, hcommon, h, hk, hi, hbelow, hready, htopk⟩ :=
    h.active_of hpc nofun rfl
  obtain ⟨hd, hparams, hrows, hasked⟩ := h.query htopk
  rw [hpc] at hasked
  have hrun : s.topkRun i = d.topkRun k i := topkRun_eq hparams hrows hasked (hready.2 htopk)
  have hnone : (s.runs.filter fun r => r.step = k ∧ r.layer = i) = [] := by
    rw [hasked.runs i hi]
    exact if_neg (Nat.lt_irrefl i)
  rw [hrun]
  refine ⟨k, rest, { hcommon with
      finished := fun x hx => (hcommon.finished x hx).append hnone
      runs := fun r hr => ?_ }, .active topk keys d { h with
      calcPc := ⟨hk, hi, fun layer hlt => ?_⟩
      query := fun _ => ⟨hd, hparams, hrows, hasked.append hi⟩
      served := fun hfalse => ?_ }⟩
  · rcases List.mem_append.mp hr with hr | hr
    · exact hcommon.runs r hr
    · obtain ⟨older, hhead, -⟩ := hasked.asked
      refine ⟨(k, d), ?_, ?_⟩
      · show (k, d) ∈ s.asked
        rw [hhead]
        exact List.mem_cons_self
      · rw [List.mem_singleton.mp hr]
        rfl
  · rcases Nat.lt_succ_iff_lt_or_eq.mp hlt with hlt | rfl
    · exact hbelow layer hlt
    · exact hready
  · cases htopk.symm.trans hfalse

/-- In the pass, a step that only moves the calculate thread. -/
theorem Active.move {pc : CalcPc} (h : Active last s k topk keys d rest)
    (hpass : PassOk last s k topk keys pc)
    (hcomputed : topk = true → pc.computed = s.calcPc.computed) :
    Active last { s with calcPc := pc } k topk keys d rest := by
  refine { h with calcPc := ?_, query := fun htopk => ?_ }
  · exact hpass.mono rfl rfl (fun _ hq => hq) fun _ hk => hk
  · obtain ⟨hd, hparams, hrows, hasked⟩ := h.query htopk
    rw [← hcomputed htopk] at hasked
    exact ⟨hd, hparams, hrows, hasked⟩

/-- The flag of a layer is stored; after the last one the flags are to be cleared. -/
theorem Inv.storeFlag (h : Inv last s) (hpc : s.calcPc = .storeFlag i) :
    Inv last { s with
      topkFlag := update s.topkFlag i true
      calcPc := if i < last then .layer (i + 1) else .resetReady } := by
  obtain ⟨k, rest, topk, keys, d, hcommon, h, hk, hi, hready⟩ :=
    h.active_of hpc nofun rfl
  by_cases hlt : i < last
  · rw [if_pos hlt]
    have hmove : Active last { s with calcPc := .layer (i + 1) } k topk keys d rest :=
      h.move ⟨hk, hlt, hready⟩ fun _ => by rw [hpc]; rfl
    refine ⟨k, rest, { hcommon with }, .active topk keys d { hmove with topkFlag := ?_ }⟩
    show update s.topkFlag i true last = false
    rw [update_of_ne (Nat.ne_of_gt hlt)]
    exact h.topkFlag
  · rw [if_neg hlt]
    obtain rfl : i = last := Nat.le_antisymm hi (Nat.le_of_not_lt hlt)
    have hdone : rest = [] := h.progress.done fun layer hle => hready layer (Nat.lt_succ_of_le hle)
    subst hdone
    refine ⟨k, [], { hcommon with }, .resetting topk keys
      { mainPc := h.mainPc
        topkFlag := ?_
        served := ?_
        pass := hk
        qReady := fun layer hq => ?_
        kReady := fun layer hkey => ?_
        calcPc := ⟨h.needCalTopk, h.needCalPre⟩ }⟩
    · show update s.topkFlag i true i = true
      rw [update_self]
    · show ∀ x ∈ s.asked, Served i s.runs x
      cases htopk : topk with
      | true =>
        have hasked := (h.query htopk).2.2.2
        rw [hpc] at hasked
        exact hasked.served
      | false => exact h.served htopk
    · obtain ⟨hle, htopk, -⟩ := (h.progress.query layer).mp hq
      exact ⟨hle, htopk, h.qStep layer hq⟩
    · obtain ⟨hle, hkeys, -⟩ := (h.progress.key layer).mp hkey
      exact ⟨hle, hkeys, h.kStep layer hkey⟩

/-- The pass comes to a layer. -/
theorem Inv.beginLayer (h : Inv last s) (hpc : s.calcPc = .layer i) :
    Inv last { s with calcPc := if s.needCalPre then .waitKReady i else .layerTopk i } := by
  obtain ⟨k, rest, topk, keys, d, hcommon, h, hk, hi, hbelow⟩ :=
    h.active_of hpc nofun rfl
  refine ⟨k, rest, { hcommon with }, .active topk keys d ?_⟩
  by_cases hkeys : s.needCalPre = true
  · rw [if_pos hkeys]
    exact h.move ⟨hk, hi, hbelow, h.needCalPre.symm.trans hkeys⟩ fun _ => by rw [hpc]; rfl
  · rw [if_neg hkeys]
    rw [h.needCalPre] at hkeys
    exact h.move ⟨hk, hi, hbelow, fun htrue => absurd htrue hkeys⟩ fun _ => by rw [hpc]; rfl

/-- The keys of a layer are ready. -/
theorem Inv.waitKReady (h : Inv last s) (hpc : s.calcPc = .waitKReady i)
    (hready : s.kReady i = true) :
    Inv last { s.consume (s.kStep i) with calcPc := .layerTopk i } := by
  obtain ⟨k, rest, topk, keys, d, hcommon, h, hk, hi, hbelow, -⟩ :=
    h.active_of hpc nofun rfl
  have hcommon' := hcommon.consume ((h.kStep i hready).trans hk.symm)
  have hmove : Active last { s with calcPc := .layerTopk i } k topk keys d rest :=
    h.move ⟨hk, hi, hbelow, fun _ => hready⟩ fun _ => by rw [hpc]; rfl
  exact ⟨k, rest, { hcommon' with }, .active topk keys d { hmove with }⟩

theorem Inv.layerTopk (h : Inv last s) (hpc : s.calcPc = .layerTopk i) :
    Inv last { s with calcPc := if s.needCalTopk then .waitQReady i else .storeFlag i } := by
  obtain ⟨k, rest, topk, keys, d, hcommon, h, hk, hi, hbelow, hkey⟩ :=
    h.active_of hpc nofun rfl
  refine ⟨k, rest, { hcommon with }, .active topk keys d ?_⟩
  by_cases htopk : s.needCalTopk = true
  · rw [if_pos htopk]
    exact h.move ⟨hk, hi, hbelow, hkey, h.needCalTopk.symm.trans htopk⟩ fun _ => by rw [hpc]; rfl
  · rw [if_neg htopk]
    rw [h.needCalTopk] at htopk
    refine h.move ⟨hk, hi, fun layer hlt => ?_⟩ fun htrue => absurd htrue htopk
    rcases Nat.lt_succ_iff_lt_or_eq.mp hlt with hlt | rfl
    · exact hbelow layer hlt
    · exact ⟨hkey, fun htrue => absurd htrue htopk⟩

/-- The query of a layer is ready. -/
theorem Inv.waitQReady (h : Inv last s) (hpc : s.calcPc = .waitQReady i)
    (hready : s.qReady i = true) :
    Inv last { s.consume (s.qStep i) with calcPc := .calculateTopk i } := by
  obtain ⟨k, rest, topk, keys, d, hcommon, h, hk, hi, hbelow, hkey, htopk⟩ :=
    h.active_of hpc nofun rfl
  have hcommon' := hcommon.consume ((h.qStep i hready).trans hk.symm)
  have hmove : Active last { s with calcPc := .calculateTopk i } k topk keys d rest :=
    h.move ⟨hk, hi, hbelow, ⟨hkey, fun _ => hready⟩, htopk⟩ fun _ => by rw [hpc]; rfl
  exact ⟨k, rest, { hcommon' with }, .active topk keys d { hmove with }⟩

variable {ready : Nat → Bool}

/-- Where a flag needs what is not asked for, none is set. -/
theorem ready_false {need : Bool} (hneed : ¬ need = true)
    (h : ∀ layer, ready layer = true → need = true) (layer : Nat) : ready layer = false := by
  by_contra hready
  rw [Bool.not_eq_false] at hready
  exact hneed (h layer hready)

/-- `ResetReady` begins. -/
theorem Inv.resetReady (h : Inv last s) (hpc : s.calcPc = .resetReady) :
    Inv last { s with calcPc := if s.needCalTopk then .resetQ 0 else .resetPre } := by
  obtain ⟨k, topk, keys, hcommon, h, htopk, hkeys⟩ := h.resetting_of hpc nofun rfl
  refine ⟨k, [], { hcommon with }, .resetting topk keys { h with calcPc := ?_ }⟩
  split_ifs with hneed
  · exact ⟨Nat.zero_le _, hkeys, fun _ hlt => absurd hlt (Nat.not_lt_zero _)⟩
  · exact ⟨hkeys, ready_false hneed fun layer hready => htopk.trans (h.qReady layer hready).2.1⟩

theorem update_clear (hbelow : ∀ layer < i, ready layer = false) :
    ∀ layer < i + 1, update ready i false layer = false := by
  intro layer hlt
  by_cases hlayer : layer = i
  · rw [hlayer, update_self]
  · rw [update_of_ne hlayer]
    exact hbelow layer (by omega)

/-- What is still set was set before. -/
theorem of_update_clear {layer : Nat} (h : update ready i false layer = true) :
    ready layer = true := by
  by_cases hlayer : layer = i
  · rw [hlayer, update_self] at h
    cases h
  · rw [update_of_ne hlayer] at h
    exact h

/-- With the flag of the last layer the last flag is cleared. -/
theorem clear_all (hclear : ∀ layer < last + 1, ready layer = false)
    (hbound : ∀ layer, ready layer = true → layer ≤ last) : ∀ layer, ready layer = false := by
  intro layer
  by_contra hready
  rw [Bool.not_eq_false] at hready
  have hle := hbound layer hready
  cases hready.symm.trans (hclear layer (Nat.lt_succ_of_le hle))

/-- A flag that is cleared is one of the decode step of the pass. -/
theorem Common.consumeIf (h : Common last k rest s) {ready : Bool} {step : Nat}
    (hsame : ready = true → step = s.pass) :
    ∀ c ∈ s.consumed ++ (if ready then [(step, s.pass)] else []), c.1 = c.2 := by
  intro c hc
  rcases List.mem_append.mp hc with hc | hc
  · exact h.consumed c hc
  · split_ifs at hc with hready
    · rw [List.mem_singleton.mp hc]
      exact hsame hready
    · cases hc

/-- The flag of a query is cleared. -/
theorem Inv.resetQ (h : Inv last s) (hpc : s.calcPc = .resetQ i) :
    Inv last { s with
      consumed := s.consumed ++ if s.qReady i then [(s.qStep i, s.pass)] else []
      qReady := update s.qReady i false
      calcPc := if i < last then .resetQ (i + 1) else .resetPre } := by
  obtain ⟨k, topk, keys, hcommon, h, hi, hkeys, hbelow⟩ := h.resetting_of hpc nofun rfl
  have hclear := update_clear hbelow
  refine ⟨k, [], { hcommon with
    consumed := hcommon.consumeIf fun hready => (h.qReady i hready).2.2.trans h.pass.symm },
    .resetting topk keys { h with
      qReady := fun layer hready => h.qReady layer (of_update_clear hready)
      calcPc := ?_ }⟩
  show ResetOk last _ topk keys (if i < last then .resetQ (i + 1) else .resetPre)
  by_cases hlt : i < last
  · rw [if_pos hlt]
    exact ⟨hlt, hkeys, hclear⟩
  · rw [if_neg hlt]
    obtain rfl : i = last := Nat.le_antisymm hi (Nat.le_of_not_lt hlt)
    exact ⟨hkeys, clear_all hclear fun layer hready => (h.qReady layer (of_update_clear hready)).1⟩

theorem Inv.resetPre (h : Inv last s) (hpc : s.calcPc = .resetPre) :
    Inv last { s with calcPc := if s.needCalPre then .resetK 0 else .resetNeedTopk } := by
  obtain ⟨k, topk, keys, hcommon, h, hkeys, hqueries⟩ := h.resetting_of hpc nofun rfl
  refine ⟨k, [], { hcommon with }, .resetting topk keys { h with calcPc := ?_ }⟩
  split_ifs with hneed
  · exact ⟨Nat.zero_le _, hqueries, fun _ hlt => absurd hlt (Nat.not_lt_zero _)⟩
  · exact ⟨hqueries, ready_false hneed fun layer hready => hkeys.trans (h.kReady layer hready).2.1⟩

theorem Inv.resetK (h : Inv last s) (hpc : s.calcPc = .resetK i) :
    Inv last { s with
      consumed := s.consumed ++ if s.kReady i then [(s.kStep i, s.pass)] else []
      kReady := update s.kReady i false
      calcPc := if i < last then .resetK (i + 1) else .resetNeedTopk } := by
  obtain ⟨k, topk, keys, hcommon, h, hi, hqueries, hbelow⟩ := h.resetting_of hpc nofun rfl
  have hclear := update_clear hbelow
  refine ⟨k, [], { hcommon with
    consumed := hcommon.consumeIf fun hready => (h.kReady i hready).2.2.trans h.pass.symm },
    .resetting topk keys { h with
      kReady := fun layer hready => h.kReady layer (of_update_clear hready)
      calcPc := ?_ }⟩
  show ResetOk last _ topk keys (if i < last then .resetK (i + 1) else .resetNeedTopk)
  by_cases hlt : i < last
  · rw [if_pos hlt]
    exact ⟨hlt, hqueries, hclear⟩
  · rw [if_neg hlt]
    obtain rfl : i = last := Nat.le_antisymm hi (Nat.le_of_not_lt hlt)
    exact ⟨hqueries, clear_all hclear fun layer hready => (h.kReady layer (of_update_clear hready)).1⟩

/-- `m_needCalTopk` is cleared: what was asked for has been served. -/
theorem Inv.resetNeedTopk (h : Inv last s) (hpc : s.calcPc = .resetNeedTopk) :
    Inv last { s with needCalTopk := false, calcPc := .resetNeedPre } := by
  obtain ⟨k, topk, keys, hcommon, h, hreset⟩ := h.resetting_of hpc nofun rfl
  exact ⟨k, [], { hcommon with }, .resetting topk keys { h with calcPc := ⟨hreset, rfl⟩ }⟩

/-- `m_needCalPre` is cleared: nothing is handed over any more. -/
theorem Inv.resetNeedPre (h : Inv last s) (hpc : s.calcPc = .resetNeedPre) :
    Inv last { s with needCalPre := false, calcPc := .waiting } := by
  obtain ⟨k, topk, keys, hcommon, h, ⟨hqueries, hkeys⟩, htopk⟩ := h.resetting_of hpc nofun rfl
  obtain ⟨reqs, hmain⟩ := h.mainPc
  exact ⟨k, [], { hcommon with }, .idle reqs hmain
    { calcPc := rfl
      needCalTopk := htopk
      needCalPre := rfl
      qReady := hqueries
      kReady := hkeys
      topkFlag := h.topkFlag
      served := h.served }⟩

/-- Every step of the calculate thread keeps the invariant. -/
theorem Inv.calculate (h : Inv last s) (hstep : s.calculate last = some s') : Inv last s' := by
  unfold State.calculate at hstep
  split at hstep
  · next hpc =>
    by_cases hdue : s.checkDataStatus = true
    · rw [if_pos hdue] at hstep
      cases hstep
      exact h.beginPass hpc hdue
    · rw [if_neg hdue] at hstep
      cases hstep
  · next hpc =>
    cases hstep
    exact h.beginLayer hpc
  · next hpc =>
    split_ifs at hstep with hready
    cases hstep
    exact h.waitKReady hpc hready
  · next hpc =>
    cases hstep
    exact h.layerTopk hpc
  · next hpc =>
    split_ifs at hstep with hready
    cases hstep
    exact h.waitQReady hpc hready
  · next hpc =>
    cases hstep
    exact h.calculateTopk hpc
  · next hpc =>
    cases hstep
    exact h.storeFlag hpc
  · next hpc =>
    cases hstep
    exact h.resetReady hpc
  · next hpc =>
    cases hstep
    exact h.resetQ hpc
  · next hpc =>
    cases hstep
    exact h.resetPre hpc
  · next hpc =>
    cases hstep
    exact h.resetK hpc
  · next hpc =>
    cases hstep
    exact h.resetNeedTopk hpc
  · next hpc =>
    cases hstep
    exact h.resetNeedPre hpc

end UnifiedCache.Gsa.CalKpreAndTopk
