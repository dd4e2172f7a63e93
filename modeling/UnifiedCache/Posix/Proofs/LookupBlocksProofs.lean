import UnifiedCache.Posix.Proofs.LookupProofs
import UnifiedCache.Infra.Proofs.ThreadPoolWorkProofs

/-!
# Proofs: lookup block by block

`Lookup(blocks, num)` sets the flags up to the index that the prefix lookup returns. While no timeout is
under way the status of a call stays OK and the pool stays staffed, so that the workers get through every
slice, the latch comes down and the call returns.
-/

open Lib UnifiedCache.Infra

namespace UnifiedCache.Posix

variable {cfg : LookupConfig} {archived : BlockId → Bool} {s s' : LookupState}
variable {call call' : LookupCall} {c first i : Nat}

/-! ## Flags -/

theorem foldl_set_length (l : List Bool) (n : Nat) :
    ((List.range n).foldl (fun results i => results.set i true) l).length = l.length := by
  induction n with
  | zero => rfl
  | succ n ih =>
    rw [List.range_succ, List.foldl_append]
    simpa using ih

theorem foldl_set_getElem? (l : List Bool) (n j : Nat) :
    ((List.range n).foldl (fun results i => results.set i true) l)[j]? =
      if j < n ∧ j < l.length then some true else l[j]? := by
  induction n with
  | zero => simp
  | succ n ih =>
    rw [List.range_succ, List.foldl_append, List.foldl_cons, List.foldl_nil, List.getElem?_set,
      foldl_set_length, ih]
    by_cases hj : n = j
    · subst hj
      by_cases hl : n < l.length
      · simp [hl]
      · simp [hl]
    · rw [if_neg hj]
      have hiff : j < n + 1 ↔ j < n := by omega
      simp only [hiff]

theorem lookupFlags_length (num : Nat) (index : Int) : (lookupFlags num index).length = num := by
  rw [lookupFlags, foldl_set_length, List.length_replicate]

theorem lookupFlags_getElem? {num j : Nat} (index : Int) (hj : j < num) :
    (lookupFlags num index)[j]? = some (decide ((j : Int) ≤ index)) := by
  have hiff : j < (index + 1).toNat ↔ (j : Int) ≤ index := by omega
  rw [lookupFlags, foldl_set_getElem?, List.length_replicate, List.getElem?_replicate]
  by_cases hi : (j : Int) ≤ index <;> simp [hj, hi, hiff]

theorem lookupFlags_eq_iff {call : LookupCall} {r : Int} (h : call.Exact archived r) :
    lookupFlags call.blocks.length r = call.blocks.map archived ↔ HitsFirst archived call.blocks := by
  have hget : ∀ (j : Nat) (hj : j < call.blocks.length),
      call.lookup archived j = archived call.blocks[j] := by
    intro j hj
    simp [LookupCall.lookup, List.getElem?_eq_getElem hj]
  constructor
  · intro heq
    rw [HitsFirst, List.pairwise_iff_getElem]
    intro i j hi hj hij hb
    have hflag : ∀ k (hk : k < call.blocks.length),
        decide ((k : Int) ≤ r) = archived call.blocks[k] := by
      intro k hk
      have h1 := lookupFlags_getElem? r hk
      rw [heq, List.getElem?_map, List.getElem?_eq_getElem hk] at h1
      exact (Option.some.inj h1).symm
    rw [← hflag j hj, decide_eq_true_eq] at hb
    rw [← hflag i hi, decide_eq_true_eq]
    omega
  · intro hfirst
    rw [HitsFirst, List.pairwise_iff_getElem] at hfirst
    refine List.ext_getElem? fun j => ?_
    by_cases hj : j < call.blocks.length
    · rw [lookupFlags_getElem? r hj, List.getElem?_map, List.getElem?_eq_getElem hj]
      simp only [Option.map_some, Option.some.injEq]
      by_cases hjr : (j : Int) ≤ r
      · have hhit := h.1 j hjr
        rw [hget j hj] at hhit
        simp [hjr, hhit]
      · -- the first miss is in front of `j`, or is `j`
        have hmiss : archived call.blocks[j] = false := by
          rcases h.2 with hlen | ⟨m, hm, hml, hlook⟩
          · omega
          · rw [hget m hml] at hlook
            by_cases hmj : m = j
            · subst hmj
              exact hlook
            · by_contra hhit
              have := hfirst m j hml hj (by omega) (by simpa using hhit)
              rw [hlook] at this
              cases this
        simp [hjr, hmiss]
    · rw [List.getElem?_eq_none (by rw [lookupFlags_length]; omega),
        List.getElem?_eq_none (by simpa using hj)]

/-! ## Without timeouts -/

/-- Without timeouts the status of a call stays OK, so that it can only fail for want of memory. -/
structure LookupCall.InTime (call : LookupCall) : Prop where
  status : call.status = .ok
  pc : ∀ st, call.pc = .failed st → st = .outOfMemory

theorem LookupCall.InTime.scan (h : call.InTime) {spurious : Bool} {p : ScanPc} :
    (onLookupPrefix cfg archived spurious first call p).1.InTime := by
  cases p with
  | exchange i cur =>
    simp only [onLookupPrefix]
    split_ifs
    · exact ⟨h.status, h.pc⟩
    · exact h
    · exact h
  | done => exact ⟨h.status, h.pc⟩
  | enter | status i | firstFail i | lookup i | reload i => exact h

theorem LookupCall.InTime.caller (h : call.InTime) {ctxs : List PrefixLookupContext}
    (hstep : lookupOnPrefix cfg c call = some (call', ctxs)) : call'.InTime := by
  have hst := h.status
  unfold lookupOnPrefix at hstep
  split at hstep
  · split_ifs at hstep <;>
      (cases hstep; exact ⟨hst, fun st hpc => by cases hpc⟩)
  · split_ifs at hstep
    cases hstep
    exact ⟨hst, fun st hpc => by cases hpc⟩
  · rw [if_neg (fun hc => hc hst)] at hstep
    cases hstep
    exact ⟨hst, fun st hpc => by cases hpc⟩
  · cases hstep
    exact ⟨hst, fun st hpc => by cases hpc⟩
  · cases hstep
  · cases hstep

theorem LookupCall.inTime_enter (blocks : List BlockId) (oom : Bool) :
    (LookupCall.enter cfg blocks oom).InTime := by
  refine ⟨rfl, fun st hpc => ?_⟩
  simp only [LookupCall.enter] at hpc
  split_ifs at hpc
  cases hpc
  rfl

theorem lookupInTime_setCall (h : ∀ c, (s.calls c).InTime) (hc : call.InTime) (c d : Nat) :
    ((s.setCall c call).calls d).InTime := by
  by_cases hd : d = c
  · subst hd
    simpa [LookupState.setCall] using hc
  · simpa [LookupState.setCall, hd] using h d

theorem lookupInTime_reach (h : (lookupMachine cfg archived).Reach LookupInTime s) :
    ∀ c, (s.calls c).InTime := by
  refine h.inv (I := fun s => ∀ c, (s.calls c).InTime) (fun s hs => ?_)
    fun s e s' hs hC hstep => ?_
  · subst hs
    exact fun _ => LookupCall.inTime_enter [] false
  · cases e with
    | call blocks oom =>
      cases hstep
      exact lookupInTime_setCall hs (LookupCall.inTime_enter blocks oom) _
    | caller c =>
      simp only [lookupMachine, LookupState.step, LookupState.callerStep] at hstep
      split_ifs at hstep
      obtain ⟨⟨call', ctxs⟩, hcall, rfl⟩ := Option.map_eq_some_iff.mp hstep
      exact lookupInTime_setCall hs ((hs c).caller hcall) c
    | worker i spurious =>
      simp only [lookupMachine, LookupState.step, LookupState.workerStep] at hstep
      split at hstep
      · cases hstep
      · split at hstep
        · cases hstep
          exact lookupInTime_setCall hs (LookupCall.InTime.scan (hs _)) _
        · obtain ⟨b, -, rfl⟩ := Option.map_eq_some_iff.mp hstep
          exact hs
    | monitor overdue added spurious =>
      simp only [lookupMachine, LookupState.step, LookupState.monitorStep] at hstep
      split_ifs at hstep
      split at hstep
      · -- no timeout is under way
        rename_i hm
        simp [LookupInTime, LookupState.expiring, hm] at hC
      · obtain ⟨b, -, rfl⟩ := Option.map_eq_some_iff.mp hstep
        exact hs

theorem timeoutReported_of_inTime (s : LookupState) (e : LookupEvent) (h : LookupInTime s e) :
    TimeoutReported s e := by
  cases e with
  | monitor overdue added spurious =>
    unfold TimeoutReported
    dsimp only
    split
    · rename_i hm
      simp [LookupInTime, LookupState.expiring, hm] at h
    · trivial
  | call _ _ | caller _ | worker _ _ => trivial

theorem staffed_reach (h : (lookupMachine cfg archived).Reach LookupInTime s) : s.pool.Staffed := by
  refine h.inv (I := fun s => s.pool.Staffed) (fun s hs => ?_) fun s e s' hs hC hstep => ?_
  · subst hs
    exact ThreadPool.staffed_start cfg.worker_pos
  · cases e with
    | call blocks oom =>
      cases hstep
      exact hs
    | caller c =>
      simp only [lookupMachine, LookupState.step, LookupState.callerStep] at hstep
      split_ifs at hstep
      obtain ⟨⟨call', ctxs⟩, -, rfl⟩ := Option.map_eq_some_iff.mp hstep
      exact hs.push ctxs
    | worker i spurious =>
      simp only [lookupMachine, LookupState.step, LookupState.workerStep] at hstep
      split at hstep
      · cases hstep
      · rename_i w hw
        have hstop := (hs.running w (List.mem_of_getElem? hw)).1
        split at hstep
        · cases hstep
          refine hs.setWorker hstop ?_
          split <;> exact fun h => by cases h
        · obtain ⟨b, hb, rfl⟩ := Option.map_eq_some_iff.mp hstep
          exact hs.workerStep hb
    | monitor overdue added spurious =>
      simp only [lookupMachine, LookupState.step, LookupState.monitorStep] at hstep
      split_ifs at hstep
      split at hstep
      · rename_i hm
        simp [LookupInTime, LookupState.expiring, hm] at hC
      · obtain ⟨b, hb, rfl⟩ := Option.map_eq_some_iff.mp hstep
        exact hs.monitorStep hb

/-! ## A call returns -/

/-- The accesses a worker makes at most until its `Done`, when the list has `n` blocks. -/
def ScanPc.cost (n : Nat) : ScanPc → Nat
  | .enter => 3 * n + n + 6
  | .status i => 3 * (n - i) + n + 5
  | .firstFail i => 3 * (n - i) + n + 4
  | .lookup i => 3 * (n - i) + n + 3
  | .reload _ => n + 2
  | .exchange _ cur => cur + 1
  | .done => 0

theorem LookupCall.loop_cost (call : LookupCall) (i : Nat) :
    (call.loop i).cost call.blocks.length ≤
      3 * (call.blocks.length - i) + call.blocks.length + 5 := by
  unfold LookupCall.loop
  split_ifs
  · exact Nat.le_refl _
  · exact Nat.zero_le _

/-- **An access of a worker brings it closer to its `Done`**, unless `compare_exchange_weak` fails
spuriously: `firstFail` only gets smaller, so that the `while` loop ends. -/
theorem onLookupPrefix_cost {p p' : ScanPc} (hfail : call.FailOk archived)
    (hp : p.Ok cfg archived call first)
    (h : (onLookupPrefix cfg archived false first call p).2 = some p') :
    p'.cost call.blocks.length < p.cost call.blocks.length := by
  have hle := hfail.le
  cases p with
  | enter =>
    cases h
    refine Nat.lt_of_le_of_lt (call.loop_cost first) ?_
    simp only [ScanPc.cost]
    omega
  | status i | firstFail i =>
    cases h
    split_ifs <;> simp only [ScanPc.cost] <;> omega
  | lookup i =>
    cases h
    have hi := hp.1
    have hpos := cfg.worker_pos
    split_ifs
    · refine Nat.lt_of_le_of_lt (call.loop_cost _) ?_
      simp only [ScanPc.cost]
      omega
    · simp only [ScanPc.cost]
      omega
  | reload i =>
    cases h
    simp only [ScanPc.cost]
    omega
  | exchange i cur =>
    have hcur := hp.2.2
    simp only [onLookupPrefix] at h
    split_ifs at h with hlt hcas <;> cases h
    · exact Nat.zero_lt_succ _
    · have hne : call.firstFail ≠ cur := fun heq => hcas ⟨heq, trivial⟩
      simp only [ScanPc.cost]
      omega
    · exact Nat.zero_lt_succ _
  | done => cases h

/-- The steps of workers that are left. -/
def LookupState.work (s : LookupState) : Nat :=
  s.pool.work (fun ctx p => p.cost (s.calls ctx.call).blocks.length) .enter

theorem work_setCall (call : LookupCall) (hblocks : call.blocks = (s.calls c).blocks)
    (b : ThreadPool PrefixLookupContext ScanPc ExpirePc) :
    ((s.setCall c call).setPool b).work =
      b.work (fun ctx p => p.cost (s.calls ctx.call).blocks.length) .enter := by
  have hsame : ∀ d, ((s.setCall c call).calls d).blocks = (s.calls d).blocks := by
    intro d
    by_cases hd : d = c
    · subst hd
      simpa [LookupState.setCall] using hblocks
    · simp [LookupState.setCall, hd]
  simp only [LookupState.work, LookupState.setPool, hsame]

/-- **While a context is under way some worker goes on**, which leaves the callers where they are. -/
theorem exists_workerStep (h : LookupInv cfg archived s) (hs : s.pool.Staffed)
    (hne : s.pool.held ≠ []) :
    ∃ i s', s.workerStep cfg archived i false = some s' ∧ s'.nextCall = s.nextCall ∧
      s'.expiring = s.expiring ∧ s'.work < s.work ∧
      ∀ d, (s'.calls d).blocks = (s.calls d).blocks ∧ (s'.calls d).pc = (s.calls d).pc := by
  obtain ⟨i, w, hw, hgo⟩ := hs.exists_worker .enter hne
  refine ⟨i, ?_⟩
  have hcalls : ∀ {d : Nat} {call : LookupCall}, call.blocks = (s.calls d).blocks →
      call.pc = (s.calls d).pc → ∀ e, ((s.setCall d call).calls e).blocks = (s.calls e).blocks ∧
        ((s.setCall d call).calls e).pc = (s.calls e).pc := by
    intro d call hblocks hpc e
    by_cases he : e = d
    · subst he
      simpa [LookupState.setCall] using ⟨hblocks, hpc⟩
    · simp [LookupState.setCall, he]
  rcases hgo with ⟨ctx, p, hpc⟩ | ⟨b, hb⟩
  · have hrun : s.pool.Runs ctx p := ⟨w, List.mem_of_getElem? hw, hpc⟩
    obtain ⟨hcall, hfirst⟩ := h.known_held hrun.held
    have hfail := (h.calls _ hcall).fail
    have hok := h.scans ctx p hrun
    have hspec := onLookupPrefix_spec false hfirst hfail hok
    have hcost : ∀ p', (onLookupPrefix cfg archived false ctx.first (s.calls ctx.call) p).2 = some p' →
        p'.cost (s.calls ctx.call).blocks.length < p.cost (s.calls ctx.call).blocks.length :=
      fun p' => onLookupPrefix_cost hfail hok
    simp only [LookupState.workerStep, hw, hpc]
    generalize onLookupPrefix cfg archived false ctx.first (s.calls ctx.call) p = r at hspec hcost
    obtain ⟨call', o⟩ := r
    rcases hspec with ⟨-, hr⟩ | ⟨hl, -, -, hpc', p', rfl, -⟩
    · cases hr
      refine ⟨_, rfl, rfl, rfl, ?_, hcalls rfl rfl⟩
      dsimp only
      rw [work_setCall (s.calls ctx.call).done rfl]
      exact ThreadPool.ret_work hw hpc
    · refine ⟨_, rfl, rfl, rfl, ?_, hcalls hl.blocks hpc'⟩
      dsimp only
      rw [work_setCall call' hl.blocks]
      exact ThreadPool.run_work hw hpc (hcost p' rfl)
  · have hstep : s.workerStep cfg archived i false = some (s.setPool b) := by
      simp only [LookupState.workerStep, hw]
      split
      · rename_i ctx p hpc
        simp [ThreadPool.workerStep, hw, Worker.step, hpc] at hb
      · rw [hb]
        rfl
    have hmon : (s.setPool b).expiring = s.expiring := by
      simp only [LookupState.expiring, LookupState.setPool, ThreadPool.workerStep_monitor hb]
    exact ⟨_, hstep, rfl, hmon, ThreadPool.workerStep_work (fun w hw => (hs.running w hw).1) hb,
      fun d => ⟨rfl, rfl⟩⟩

/-- The steps a caller takes at most. -/
def LookupPc.rank (cfg : LookupConfig) : LookupPc → Nat
  | .push first => cfg.lookupConcurrency - first + 4
  | .wait => 3
  | .status => 2
  | .firstFail => 1
  | .returned _ | .failed _ => 0

theorem exists_lookupOnPrefix (cfg : LookupConfig) (c : Nat) (hnone : call.result = none)
    (hwait : call.pc = .wait → call.waiter = 0) :
    ∃ call' ctxs, lookupOnPrefix cfg c call = some (call', ctxs) ∧ call'.blocks = call.blocks ∧
      call'.pc.rank cfg < call.pc.rank cfg := by
  unfold LookupCall.result at hnone
  unfold lookupOnPrefix
  cases hpc : call.pc with
  | push first =>
    dsimp only
    split_ifs
    · refine ⟨_, _, rfl, rfl, ?_⟩
      simp only [LookupPc.rank]
      omega
    · refine ⟨_, _, rfl, rfl, ?_⟩
      simp only [LookupPc.rank]
      omega
  | wait =>
    dsimp only
    rw [if_pos (hwait hpc)]
    exact ⟨_, _, rfl, rfl, Nat.lt_succ_self _⟩
  | status =>
    dsimp only
    split_ifs
    · exact ⟨_, _, rfl, rfl, Nat.zero_lt_succ _⟩
    · exact ⟨_, _, rfl, rfl, Nat.lt_succ_self _⟩
  | firstFail => exact ⟨_, _, rfl, rfl, Nat.zero_lt_succ _⟩
  | returned r | failed st =>
    rw [hpc] at hnone
    cases hnone

theorem CallOk.held_ne_nil {held : List PrefixLookupContext} (h : CallOk cfg archived held c call)
    (hst : call.status = .ok) (hpc : call.pc = .wait) (hw : call.waiter ≠ 0) : held ≠ [] := by
  rintro rfl
  have hcount := h.count cfg.lookupConcurrency (by rw [hpc]; rfl) hst
  rw [List.countP_nil, Nat.add_zero] at hcount
  exact hw (Nat.add_eq_right.mp hcount)

theorem exists_closer (h : (lookupMachine cfg archived).Reach LookupInTime s)
    (hquiet : s.expiring = false) (hc : c < s.nextCall) (hnone : (s.calls c).result = none) :
    ∃ e s', (lookupMachine cfg archived).step s e = some s' ∧ s'.expiring = false ∧
      s'.nextCall = s.nextCall ∧ (s'.calls c).blocks = (s.calls c).blocks ∧
      Prod.Lex (· < ·) (· < ·) ((s'.calls c).pc.rank cfg, s'.work)
        ((s.calls c).pc.rank cfg, s.work) := by
  have hinv := lookupInv_reach (h.mono timeoutReported_of_inTime)
  by_cases hwait : (s.calls c).pc = .wait ∧ (s.calls c).waiter ≠ 0
  · have hheld := (hinv.calls c hc).held_ne_nil (lookupInTime_reach h c).status hwait.1 hwait.2
    obtain ⟨i, s', hstep, hnext, hq, hlt, hsame⟩ := exists_workerStep hinv (staffed_reach h) hheld
    refine ⟨.worker i false, s', hstep, hq.trans hquiet, hnext, (hsame c).1, ?_⟩
    rw [(hsame c).2]
    exact .right _ hlt
  · obtain ⟨call', ctxs, hcall, hblocks, hlt⟩ :=
      exists_lookupOnPrefix cfg c hnone fun hpc => by
        by_contra hw
        exact hwait ⟨hpc, hw⟩
    have hstep : s.callerStep cfg c = some ((s.setCall c call').setPool
        (s.pool.setQueue (s.pool.queue.push ctxs))) := by
      rw [LookupState.callerStep, if_pos hc, hcall]
      rfl
    have hself : ((s.setCall c call').setPool
        (s.pool.setQueue (s.pool.queue.push ctxs))).calls c = call' := by
      simp [LookupState.setCall, LookupState.setPool]
    refine ⟨.caller c, _, hstep, hquiet, rfl, ?_, ?_⟩
    · rw [hself]
      exact hblocks
    · rw [hself]
      exact .left _ _ hlt

/-- **A call can always return.** -/
theorem exists_result (h : (lookupMachine cfg archived).Reach LookupInTime s)
    (hquiet : s.expiring = false) (hc : c < s.nextCall) :
    ∃ s', ((lookupMachine cfg archived).after s).Reach LookupInTime s' ∧
      (s'.calls c).blocks = (s.calls c).blocks ∧ (s'.calls c).result ≠ none := by
  obtain ⟨s', hreach, ⟨-, -, -, hblocks⟩, hresult⟩ := Machine.exists_later
    (M := lookupMachine cfg archived) (C := LookupInTime)
    (I := fun t => (lookupMachine cfg archived).Reach LookupInTime t ∧ t.expiring = false ∧
      c < t.nextCall ∧ (t.calls c).blocks = (s.calls c).blocks)
    (G := fun t => (t.calls c).result ≠ none) (fun t => ((t.calls c).pc.rank cfg, t.work))
    (fun t ⟨ht, hq, hct, hblocks⟩ hnone => by
      obtain ⟨e, t', hstep, hq', hnext, hblocks', hlt⟩ :=
        exists_closer ht hq hct (not_not.mp hnone)
      exact ⟨e, t', hq, hstep, ⟨.step ht hq hstep, hq', hnext ▸ hct, hblocks'.trans hblocks⟩, hlt⟩)
    ⟨h, hquiet, hc, rfl⟩
  exact ⟨s', hreach, hblocks, hresult⟩

/-! ## The flags of a call -/

/-- **Lookup block by block.** In every run without timeouts, and unless memory runs out, a call of
`Lookup` returns one flag for every block; they say which blocks are there if and only if no block of
the list that is there comes after one that is not. A call that is under way can always return. -/
theorem lookup_exact_iff (cfg : LookupConfig) (archived : BlockId → Bool) (s : LookupState)
    (h : (lookupMachine cfg archived).Reach LookupInTime s) (c : Nat) (hc : c < s.nextCall) :
    (∀ r, (s.calls c).result = some r → r ≠ .error .outOfMemory →
      (r = .ok ((s.calls c).blocks.map archived) ↔ HitsFirst archived (s.calls c).blocks)) ∧
    (s.expiring = false → ∃ s', ((lookupMachine cfg archived).after s).Reach LookupInTime s' ∧
      (s'.calls c).blocks = (s.calls c).blocks ∧ (s'.calls c).result ≠ none) := by
  refine ⟨fun r hr hmem => ?_, fun hquiet => exists_result h hquiet hc⟩
  have htime := lookupInTime_reach h c
  have hpc := ((lookupInv_reach (h.mono timeoutReported_of_inTime)).calls c hc).pc
  unfold LookupCall.result at hr
  split at hr
  · rename_i index hret
    cases hr
    rw [hret] at hpc
    rw [Except.ok.injEq]
    exact lookupFlags_eq_iff hpc
  · rename_i st hfail
    cases hr
    rw [htime.pc st hfail] at hmem
    exact absurd rfl hmem
  all_goals cases hr

/-- A lookup of two blocks by one worker. -/
def twoBlocksTrace (n : Nat) : List LookupEvent :=
  [.call [6, 7] false, .caller 0, .caller 0] ++ List.replicate n (.worker 0 false) ++
    [.caller 0, .caller 0, .caller 0]

/-- Only the second block is there, and it is not reported. -/
theorem lookup_inexact : ∃ s, (lookupMachine .small fun b => b == 7).Reach LookupInTime s ∧
    0 < s.nextCall ∧ (s.calls 0).blocks = [6, 7] ∧
      (s.calls 0).result = some (.ok [false, false]) ∧
      (s.calls 0).blocks.map (fun b => b == 7) = [false, true] := by
  obtain ⟨s, hs, hp⟩ := Machine.exists_reach_of_run (M := lookupMachine .small fun b => b == 7)
    (C := LookupInTime) (s := .start .small) (l := twoBlocksTrace 10)
    (p := fun s => 0 < s.nextCall ∧ (s.calls 0).blocks = [6, 7] ∧ (s.calls 0).pc = .returned (-1))
    rfl (by decide +kernel)
  obtain ⟨hnext, hblocks, hpc⟩ := hp
  refine ⟨s, hs,
    hnext, hblocks, ?_, ?_⟩
  · rw [LookupCall.result, hpc, hblocks]
    rfl
  · rw [hblocks]
    rfl

/-- Only the first block is there, and the flags say so. -/
theorem lookup_exact_iff_two_blocks : ∃ s, (lookupMachine .small fun b => b == 6).Reach LookupInTime s ∧
    (s.calls 0).blocks = [6, 7] ∧
      (s.calls 0).result = some (.ok ((s.calls 0).blocks.map fun b => b == 6)) := by
  obtain ⟨s, hreach, hp⟩ := Machine.exists_reach_of_run (M := lookupMachine .small fun b => b == 6)
    (C := LookupInTime) (s := .start .small) (l := twoBlocksTrace 13)
    (p := fun s => 0 < s.nextCall ∧ (s.calls 0).blocks = [6, 7] ∧ (s.calls 0).pc = .returned 0) rfl
    (by decide +kernel)
  obtain ⟨hnext, hblocks, hpc⟩ := hp
  refine ⟨s, hreach, hblocks, ?_⟩
  have hr : (s.calls 0).result = some (.ok (lookupFlags (s.calls 0).blocks.length 0)) := by
    rw [LookupCall.result, hpc]
  rw [hr, ((lookup_exact_iff .small _ s hreach 0 hnext).1 _ hr (by simp)).mpr]
  rw [HitsFirst, hblocks]
  decide

end UnifiedCache.Posix
