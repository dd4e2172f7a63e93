import UnifiedCache.Posix.Lookup
import UnifiedCache.Infra.Proofs.ThreadPoolProofs

/-!
# Proofs: prefix lookup is exact

While the status of a call is OK its latch counts the contexts that are still under way, and a slice
whose context is not is scanned: every block of the slice in front of `firstFail` is there
(`CallOk`). So when the latch is down and the status still OK, all blocks in front of `firstFail` are.
What the monitor counts down for a context it has given up on comes after the status of the call has
been changed, as long as `compare_exchange_weak` has not failed spuriously.
-/

open Function Lib UnifiedCache.Infra

namespace UnifiedCache.Posix

variable {cfg : LookupConfig} {archived : BlockId → Bool} {s s' : LookupState}
variable {call call' : LookupCall} {c first i : Nat}

/-! ## Scans -/

/-- The blocks of the slice in front of `i` are there. -/
def LookupCall.Before (cfg : LookupConfig) (archived : BlockId → Bool) (call : LookupCall)
    (first i : Nat) : Prop :=
  i % cfg.lookupConcurrency = first ∧
    ∀ j < i, j % cfg.lookupConcurrency = first → call.lookup archived j = true

/-- The blocks of the slice in front of `firstFail` are there. -/
def LookupCall.Scanned (cfg : LookupConfig) (archived : BlockId → Bool) (call : LookupCall)
    (first : Nat) : Prop :=
  ∀ j < call.firstFail, j % cfg.lookupConcurrency = first → call.lookup archived j = true

/-- `firstFail` is the length of the list or the place of a missing block. -/
def LookupCall.FailOk (archived : BlockId → Bool) (call : LookupCall) : Prop :=
  call.firstFail = call.blocks.length ∨
    call.firstFail < call.blocks.length ∧ call.lookup archived call.firstFail = false

/-- What a worker knows about its slice. -/
def ScanPc.Ok (cfg : LookupConfig) (archived : BlockId → Bool) (call : LookupCall) (first : Nat) :
    ScanPc → Prop
  | .enter => True
  | .status i | .firstFail i | .lookup i =>
    i < call.blocks.length ∧ call.Before cfg archived first i
  | .reload i =>
    (i < call.blocks.length ∧ call.Before cfg archived first i) ∧ call.lookup archived i = false
  | .exchange i cur =>
    (i < call.blocks.length ∧ call.Before cfg archived first i) ∧
      call.lookup archived i = false ∧ call.firstFail ≤ cur
  | .done => call.status = .ok → call.Scanned cfg archived first

/-- How a call changes while it is under way. -/
structure LookupCall.Later (call call' : LookupCall) : Prop where
  blocks : call'.blocks = call.blocks
  firstFail : call'.firstFail ≤ call.firstFail
  status : call'.status = .ok → call.status = .ok

theorem LookupCall.Later.refl (call : LookupCall) : call.Later call := ⟨rfl, Nat.le_refl _, id⟩

theorem LookupCall.Later.done (call : LookupCall) : call.Later call.done := ⟨rfl, Nat.le_refl _, id⟩

theorem LookupCall.Later.lookup (h : call.Later call') (i : Nat) :
    call'.lookup archived i = call.lookup archived i := by
  rw [LookupCall.lookup, LookupCall.lookup, h.blocks]

theorem LookupCall.Before.later (hb : call.Before cfg archived first i) (h : call.Later call') :
    call'.Before cfg archived first i :=
  ⟨hb.1, fun j hj hm => by rw [h.lookup]; exact hb.2 j hj hm⟩

theorem LookupCall.Scanned.later (hs : call.Scanned cfg archived first) (h : call.Later call') :
    call'.Scanned cfg archived first :=
  fun j hj hm => by rw [h.lookup]; exact hs j (Nat.lt_of_lt_of_le hj h.firstFail) hm

theorem ScanPc.Ok.later {p : ScanPc} (hp : p.Ok cfg archived call first) (h : call.Later call') :
    p.Ok cfg archived call' first := by
  cases p with
  | enter => trivial
  | status i | firstFail i | lookup i => exact ⟨h.blocks ▸ hp.1, hp.2.later h⟩
  | reload i => exact ⟨⟨h.blocks ▸ hp.1.1, hp.1.2.later h⟩, by rw [h.lookup]; exact hp.2⟩
  | exchange i cur =>
    exact ⟨⟨h.blocks ▸ hp.1.1, hp.1.2.later h⟩, by rw [h.lookup]; exact hp.2.1,
      Nat.le_trans h.firstFail hp.2.2⟩
  | done => exact fun hok => (hp (h.status hok)).later h

theorem LookupCall.FailOk.le (h : call.FailOk archived) : call.firstFail ≤ call.blocks.length := by
  rcases h with h | h
  · exact Nat.le_of_eq h
  · exact Nat.le_of_lt h.1

theorem LookupCall.Before.next (hb : call.Before cfg archived first i)
    (hi : call.lookup archived i = true) :
    call.Before cfg archived first (i + cfg.lookupConcurrency) := by
  refine ⟨by rw [Nat.add_mod_right]; exact hb.1, fun j hj hm => ?_⟩
  by_cases hji : j < i
  · exact hb.2 j hji hm
  · -- between `i` and the next place there is none that leaves the same remainder
    have hjeq : j = i := by
      have hzero : (j - i) % cfg.lookupConcurrency = 0 :=
        Nat.sub_mod_eq_zero_of_mod_eq (hm.trans hb.1.symm)
      rw [Nat.mod_eq_of_lt (by omega)] at hzero
      omega
    rw [hjeq]
    exact hi

theorem LookupCall.loop_ok (hfail : call.FailOk archived) (hb : call.Before cfg archived first i) :
    (call.loop i).Ok cfg archived call first := by
  unfold LookupCall.loop
  split_ifs with hi
  · exact ⟨hi, hb⟩
  · intro _ j hj hm
    have := hfail.le
    exact hb.2 j (by omega) hm

/-- **One access of a worker**: it keeps what is known about the call and about its slice, and returns
only from `Done`. -/
theorem onLookupPrefix_spec (spurious : Bool) {p : ScanPc} (hfirst : first < cfg.lookupConcurrency)
    (hfail : call.FailOk archived) (hp : p.Ok cfg archived call first) :
    let r := onLookupPrefix cfg archived spurious first call p
    (p = .done ∧ r = (call.done, none)) ∨
      call.Later r.1 ∧ r.1.FailOk archived ∧ r.1.waiter = call.waiter ∧ r.1.pc = call.pc ∧
        ∃ p', r.2 = some p' ∧ p'.Ok cfg archived r.1 first := by
  have hsame : ∀ {p' : ScanPc}, p'.Ok cfg archived call first →
      call.Later call ∧ call.FailOk archived ∧ call.waiter = call.waiter ∧ call.pc = call.pc ∧
        ∃ p'', some p' = some p'' ∧ p''.Ok cfg archived call first :=
    fun h => ⟨.refl _, hfail, rfl, rfl, _, rfl, h⟩
  cases p with
  | enter =>
    refine .inr (hsame (LookupCall.loop_ok hfail ⟨Nat.mod_eq_of_lt hfirst, fun j hj hm => ?_⟩))
    rw [Nat.mod_eq_of_lt (Nat.lt_trans hj hfirst)] at hm
    omega
  | status i =>
    refine .inr (hsame ?_)
    split_ifs with hst
    · exact fun hok => absurd hok hst
    · exact hp
  | firstFail i =>
    refine .inr (hsame ?_)
    split_ifs with hlt
    · exact fun _ j hj hm => hp.2.2 j (Nat.lt_trans hj hlt) hm
    · exact hp
  | lookup i =>
    refine .inr (hsame ?_)
    split_ifs with hl
    · exact LookupCall.loop_ok hfail (hp.2.next hl)
    · exact ⟨hp, Bool.eq_false_iff.mpr hl⟩
  | reload i => exact .inr (hsame ⟨hp.1, hp.2, Nat.le_refl _⟩)
  | exchange i cur =>
    simp only [onLookupPrefix]
    split_ifs with hlt hcas
    · refine .inr ⟨⟨rfl, ?_, id⟩, .inr ⟨hp.1.1, hp.2.1⟩, rfl, rfl, _, rfl, ?_⟩
      · rw [hcas.1]
        exact Nat.le_of_lt hlt
      · exact fun _ j hj hm => hp.1.2.2 j hj hm
    · exact .inr (hsame ⟨hp.1, hp.2.1, Nat.le_refl _⟩)
    · refine .inr (hsame fun _ j hj hm => hp.1.2.2 j ?_ hm)
      have := hp.2.2
      omega
  | done => exact .inl ⟨rfl, rfl⟩

/-! ## Calls -/

/-- The number of contexts the caller has pushed, while it waits for them. -/
def LookupPc.pushed (cfg : LookupConfig) : LookupPc → Option Nat
  | .push first => some first
  | .wait | .status => some cfg.lookupConcurrency
  | .firstFail | .returned _ | .failed _ => none

/-- What a call may return: the blocks up to `r` are there, and the next one is not. -/
def LookupCall.Exact (archived : BlockId → Bool) (call : LookupCall) (r : Int) : Prop :=
  (∀ j : Nat, (j : Int) ≤ r → call.lookup archived j = true) ∧
    (r + 1 = call.blocks.length ∨
      ∃ j : Nat, r + 1 = j ∧ j < call.blocks.length ∧ call.lookup archived j = false)

/-- What a caller knows when it is past the wait. -/
def LookupPc.Ok (archived : BlockId → Bool) (call : LookupCall) : LookupPc → Prop
  | .push _ | .wait | .failed _ => True
  | .status => call.waiter = 0
  | .firstFail => ∀ j < call.firstFail, call.lookup archived j = true
  | .returned r => call.Exact archived r

/-- **The invariant of a call**, the contexts `held` being under way. -/
structure CallOk (cfg : LookupConfig) (archived : BlockId → Bool) (held : List PrefixLookupContext)
    (c : Nat) (call : LookupCall) : Prop where
  fail : call.FailOk archived
  /-- The latch counts the contexts that are not pushed and those that are under way. -/
  count : ∀ k, call.pc.pushed cfg = some k → call.status = .ok →
    call.waiter + k = cfg.lookupConcurrency + held.countP fun ctx => ctx.call = c
  /-- Every slice is not pushed, under way or scanned. -/
  slices : ∀ k, call.pc.pushed cfg = some k → call.status = .ok → ∀ first < cfg.lookupConcurrency,
    k ≤ first ∨ ⟨c, first⟩ ∈ held ∨ call.Scanned cfg archived first
  pushed : ∀ k, call.pc.pushed cfg = some k → k ≤ cfg.lookupConcurrency
  pc : call.pc.Ok archived call

variable {held held' : List PrefixLookupContext}

theorem CallOk.congr (h : CallOk cfg archived held c call)
    (hcount : (held'.countP fun ctx => ctx.call = c) = held.countP fun ctx => ctx.call = c)
    (hmem : ∀ first, ⟨c, first⟩ ∈ held → ⟨c, first⟩ ∈ held') : CallOk cfg archived held' c call where
  fail := h.fail
  count := fun k hk hok => by rw [hcount]; exact h.count k hk hok
  slices := fun k hk hok first hf =>
    (h.slices k hk hok first hf).imp_right fun hs => hs.imp_left (hmem first)
  pushed := h.pushed
  pc := h.pc

theorem CallOk.perm (h : CallOk cfg archived held c call) (hp : held'.Perm held) :
    CallOk cfg archived held' c call :=
  h.congr (hp.countP_eq _) fun _ hm => hp.symm.subset hm

theorem CallOk.other (h : CallOk cfg archived held c call) {ctx : PrefixLookupContext}
    (hne : ctx.call ≠ c) (hp : held'.Perm (ctx :: held) ∨ held.Perm (ctx :: held')) :
    CallOk cfg archived held' c call := by
  have hcons : ∀ l : List PrefixLookupContext,
      ((ctx :: l).countP fun x => x.call = c) = l.countP fun x => x.call = c :=
    fun l => List.countP_cons_of_neg (by simpa using hne)
  rcases hp with hp | hp
  · exact h.congr (by rw [hp.countP_eq, hcons])
      fun _ hm => hp.symm.subset (List.mem_cons_of_mem _ hm)
  · refine h.congr (by rw [hp.countP_eq, hcons]) fun first hm => ?_
    rcases List.mem_cons.mp (hp.subset hm) with heq | hm
    · rw [← heq] at hne
      exact absurd rfl hne
    · exact hm

theorem LookupPc.Ok.later {p : LookupPc} (hp : p.Ok archived call) (h : call.Later call')
    (hw : call.waiter = 0 → call'.waiter = 0) : p.Ok archived call' := by
  cases p with
  | push _ | wait | failed _ => trivial
  | status => exact hw hp
  | firstFail => exact fun j hj => by rw [h.lookup]; exact hp j (Nat.lt_of_lt_of_le hj h.firstFail)
  | returned r =>
    refine ⟨fun j hj => by rw [h.lookup]; exact hp.1 j hj, ?_⟩
    rw [h.blocks]
    refine hp.2.imp_right ?_
    rintro ⟨j, hj, hlt, hl⟩
    exact ⟨j, hj, hlt, by rw [h.lookup]; exact hl⟩

theorem CallOk.scan (h : CallOk cfg archived held c call) (hl : call.Later call')
    (hfail : call'.FailOk archived) (hw : call'.waiter = call.waiter) (hpc : call'.pc = call.pc) :
    CallOk cfg archived held c call' where
  fail := hfail
  count := by
    rw [hpc, hw]
    exact fun k hk hok => h.count k hk (hl.status hok)
  slices := by
    rw [hpc]
    exact fun k hk hok first hf => (h.slices k hk (hl.status hok) first hf).imp_right
      fun hs => hs.imp_right fun hsc => hsc.later hl
  pushed := by
    rw [hpc]
    exact h.pushed
  pc := by
    rw [hpc]
    exact h.pc.later hl fun h0 => hw.trans h0

theorem CallOk.done (h : CallOk cfg archived held c call)
    (hp : held.Perm (⟨c, first⟩ :: held'))
    (hsc : call.status = .ok → call.Scanned cfg archived first) :
    CallOk cfg archived held' c call.done where
  fail := h.fail
  count := by
    intro k hk hok
    have hcount := h.count k hk hok
    have hle := h.pushed k hk
    rw [hp.countP_eq, List.countP_cons_of_pos (by simp)] at hcount
    simp only [LookupCall.done]
    omega
  slices := by
    intro k hk hok f hf
    rcases h.slices k hk hok f hf with hs | hs | hs
    · exact .inl hs
    · rcases List.mem_cons.mp (hp.subset hs) with heq | hs
      · cases heq
        exact .inr (.inr (hsc hok))
      · exact .inr (.inl hs)
    · exact .inr (.inr hs)
  pushed := h.pushed
  pc := h.pc.later (.done _) fun h0 => by simp [LookupCall.done, h0]

theorem CallOk.expired (h : CallOk cfg archived held c call) (hl : call.Later call')
    (hfail : call'.FailOk archived) (hst : call'.status ≠ .ok)
    (hw : call.waiter = 0 → call'.waiter = 0) (hpc : call'.pc = call.pc) :
    CallOk cfg archived held c call' where
  fail := hfail
  count := fun _ _ hok => absurd hok hst
  slices := fun _ _ hok => absurd hok hst
  pushed := by
    rw [hpc]
    exact h.pushed
  pc := by
    rw [hpc]
    exact h.pc.later hl hw

theorem callOk_enter (blocks : List BlockId) (oom : Bool)
    (hnone : ∀ ctx ∈ held, ctx.call ≠ c) : CallOk cfg archived held c (.enter cfg blocks oom) := by
  have hcount : (held.countP fun ctx => ctx.call = c) = 0 :=
    List.countP_eq_zero.mpr fun ctx hc => by simpa using hnone ctx hc
  have hpushed : ∀ k, (LookupCall.enter cfg blocks oom).pc.pushed cfg = some k → k = 0 := by
    intro k hk
    simp only [LookupCall.enter] at hk
    split_ifs at hk <;> cases hk
    rfl
  refine ⟨.inl rfl, fun k hk _ => ?_, fun k hk _ f _ => ?_, fun k hk => ?_, ?_⟩
  · rw [hpushed k hk, hcount]
    rfl
  · rw [hpushed k hk]
    exact .inl (Nat.zero_le _)
  · rw [hpushed k hk]
    exact Nat.zero_le _
  · simp only [LookupCall.enter]
    split_ifs with h0
    · refine ⟨fun j hj => by omega, .inl ?_⟩
      simp [h0]
    · trivial
    · trivial

/-- **The next step of the caller.** When the latch is down and the status OK, every slice has been
scanned, so that all blocks in front of `firstFail` are there. -/
theorem CallOk.caller {ctxs : List PrefixLookupContext} (h : CallOk cfg archived held c call)
    (hstep : lookupOnPrefix cfg c call = some (call', ctxs)) (hp : held'.Perm (ctxs ++ held)) :
    CallOk cfg archived held' c call' := by
  obtain ⟨hfail, hcount, hslices, hpushed, hpc⟩ := h
  obtain ⟨blocks, firstFail, status, waiter, pc⟩ := call
  cases pc with
  | push first =>
    simp only [lookupOnPrefix] at hstep
    split_ifs at hstep with hlt <;> cases hstep
    · refine ⟨hfail, fun k hk hok => ?_, fun k hk hok f hf => ?_, fun k hk => ?_, trivial⟩
      · cases hk
        have := hcount first rfl hok
        rw [hp.countP_eq, List.singleton_append, List.countP_cons_of_pos (by simp)]
        dsimp only at this ⊢
        omega
      · cases hk
        rcases hslices first rfl hok f hf with hs | hs | hs
        · by_cases heq : f = first
          · subst heq
            exact .inr (.inl (hp.symm.subset (List.mem_cons_self)))
          · exact .inl (by omega)
        · exact .inr (.inl (hp.symm.subset (List.mem_cons_of_mem _ hs)))
        · exact .inr (.inr hs)
      · cases hk
        exact hlt
    · have hfirst : first = cfg.lookupConcurrency :=
        Nat.le_antisymm (hpushed first rfl) (Nat.not_lt.mp hlt)
      subst hfirst
      exact CallOk.perm ⟨hfail, fun k hk => by cases hk; exact hcount _ rfl,
        fun k hk => by cases hk; exact hslices _ rfl, fun k hk => by cases hk; exact Nat.le_refl _,
        trivial⟩ hp
  | wait =>
    simp only [lookupOnPrefix] at hstep
    split_ifs at hstep with h0
    cases hstep
    exact CallOk.perm ⟨hfail, hcount, hslices, hpushed, h0⟩ hp
  | status =>
    simp only [lookupOnPrefix] at hstep
    split_ifs at hstep with hst <;> cases hstep
    · exact ⟨hfail, fun _ hk => (by cases hk), fun _ hk => (by cases hk), fun _ hk => (by cases hk),
        trivial⟩
    · refine ⟨hfail, fun _ hk => (by cases hk), fun _ hk => (by cases hk), fun _ hk => (by cases hk),
        fun j hj => ?_⟩
      rw [not_not] at hst
      have h0 : waiter = 0 := hpc
      have hnone := hcount _ rfl hst
      have hlt : j % cfg.lookupConcurrency < cfg.lookupConcurrency := Nat.mod_lt _ cfg.worker_pos
      rcases hslices _ rfl hst _ hlt with hs | hs | hs
      · omega
      · have hpos : 0 < held.countP fun ctx => ctx.call = c :=
          List.countP_pos_iff.mpr ⟨_, hs, by simp⟩
        dsimp only at hnone
        omega
      · exact hs j hj rfl
  | firstFail =>
    cases hstep
    refine ⟨hfail, fun _ hk => (by cases hk), fun _ hk => (by cases hk), fun _ hk => (by cases hk),
      fun j hj => hpc j ?_, ?_⟩
    · dsimp only at hj ⊢
      omega
    · rcases hfail with hf | hf
      · refine .inl ?_
        dsimp only at hf ⊢
        omega
      · exact .inr ⟨firstFail, Int.sub_add_cancel _ _, hf⟩
  | returned r | failed st => cases hstep

/-! ## The service -/

/-- **The invariant of the service.** -/
structure LookupInv (cfg : LookupConfig) (archived : BlockId → Bool) (s : LookupState) : Prop where
  known : ∀ ctx ∈ s.pool.tasks, ctx.call < s.nextCall ∧ ctx.first < cfg.lookupConcurrency
  calls : ∀ c < s.nextCall, CallOk cfg archived s.pool.held c (s.calls c)
  scans : ∀ ctx p, s.pool.Runs ctx p → p.Ok cfg archived (s.calls ctx.call) ctx.first
  /-- The monitor counts a latch down only when the call has failed. -/
  expired : ∀ it ctx, s.pool.monitor = .timeout it ctx .done → (s.calls ctx.call).status ≠ .ok

theorem LookupInv.known_held (h : LookupInv cfg archived s) {ctx : PrefixLookupContext}
    (hc : ctx ∈ s.pool.held) : ctx.call < s.nextCall ∧ ctx.first < cfg.lookupConcurrency :=
  h.known ctx (ThreadPool.mem_tasks.mpr (.inl hc))

theorem LookupInv.known_monitored (h : LookupInv cfg archived s) {it : Nat}
    {ctx : PrefixLookupContext} {p : ExpirePc} (hm : s.pool.monitor = .timeout it ctx p) :
    ctx.call < s.nextCall ∧ ctx.first < cfg.lookupConcurrency := by
  refine h.known ctx (ThreadPool.mem_tasks.mpr (.inr (.inr ?_)))
  rw [ThreadPool.monitored, hm]
  exact List.mem_singleton_self _

theorem LookupInv.pool (h : LookupInv cfg archived s)
    {b : ThreadPool PrefixLookupContext ScanPc ExpirePc} (htasks : b.tasks ⊆ s.pool.tasks)
    (hheld : b.held.Perm s.pool.held)
    (hruns : ∀ ctx p, b.Runs ctx p → s.pool.Runs ctx p ∨ p = .enter)
    (hmon : ∀ it ctx, b.monitor = .timeout it ctx .done → s.pool.monitor = .timeout it ctx .done) :
    LookupInv cfg archived (s.setPool b) where
  known := fun ctx hc => h.known ctx (htasks hc)
  calls := fun c hc => (h.calls c hc).perm hheld
  scans := by
    intro ctx p hr
    rcases hruns ctx p hr with hr | rfl
    · exact h.scans ctx p hr
    · trivial
  expired := fun it ctx hm => h.expired it ctx (hmon it ctx hm)

theorem LookupInv.setCall (h : LookupInv cfg archived s) {c : Nat} (hl : (s.calls c).Later call')
    {b : ThreadPool PrefixLookupContext ScanPc ExpirePc}
    (hknown : ∀ ctx ∈ b.tasks, ctx.call < s.nextCall ∧ ctx.first < cfg.lookupConcurrency)
    (hself : CallOk cfg archived b.held c call')
    (hothers : ∀ c' < s.nextCall, c' ≠ c → CallOk cfg archived b.held c' (s.calls c'))
    (hruns : ∀ ctx p, b.Runs ctx p →
      s.pool.Runs ctx p ∨ ctx.call = c ∧ p.Ok cfg archived call' ctx.first)
    (hmon : ∀ it ctx, b.monitor = .timeout it ctx .done →
      s.pool.monitor = .timeout it ctx .done ∨ ctx.call = c ∧ call'.status ≠ .ok) :
    LookupInv cfg archived ((s.setCall c call').setPool b) where
  known := hknown
  calls := by
    intro c' hc'
    by_cases hcc : c' = c
    · subst hcc
      simpa [LookupState.setCall, LookupState.setPool] using hself
    · simpa [LookupState.setCall, LookupState.setPool, update_of_ne hcc] using
        hothers c' hc' hcc
  scans := by
    intro ctx p hr
    by_cases hcc : ctx.call = c
    · simp only [LookupState.setCall, LookupState.setPool, hcc, update_self]
      rcases hruns ctx p hr with hr | ⟨-, hp⟩
      · exact (hcc ▸ h.scans ctx p hr).later hl
      · exact hp
    · simp only [LookupState.setCall, LookupState.setPool, update_of_ne hcc]
      rcases hruns ctx p hr with hr | ⟨hc, -⟩
      · exact h.scans ctx p hr
      · exact absurd hc hcc
  expired := by
    intro it ctx hm
    by_cases hcc : ctx.call = c
    · simp only [LookupState.setCall, LookupState.setPool, hcc, update_self]
      rcases hmon it ctx hm with hm | ⟨-, hst⟩
      · exact fun hok => h.expired it ctx hm (by rw [hcc]; exact hl.status hok)
      · exact hst
    · simp only [LookupState.setCall, LookupState.setPool, update_of_ne hcc]
      rcases hmon it ctx hm with hm | ⟨hc, -⟩
      · exact h.expired it ctx hm
      · exact absurd hc hcc

theorem LookupInv.worker (h : LookupInv cfg archived s) {i : Nat} {spurious : Bool}
    (hstep : s.workerStep cfg archived i spurious = some s') : LookupInv cfg archived s' := by
  unfold LookupState.workerStep at hstep
  split at hstep
  · cases hstep
  · rename_i w hw
    split at hstep
    · rename_i ctx p hpc
      have hrun : s.pool.Runs ctx p := ⟨w, List.mem_of_getElem? hw, hpc⟩
      obtain ⟨hcall, hfirst⟩ := h.known_held hrun.held
      have hok := h.calls _ hcall
      have hwheld : w.held = [ctx] := by rw [Worker.held, hpc]
      have hset := fun w' => ThreadPool.held_setWorker (b := s.pool) hw w'
      -- a worker that stays in the function or returns from it makes up no task
      have hknown : ∀ pc : WorkerPc PrefixLookupContext ScanPc,
          (∀ x ∈ Worker.held { w with pc := pc }, x = ctx) →
          ∀ x ∈ (s.pool.setWorker i { w with pc := pc }).tasks,
            x.call < s.nextCall ∧ x.first < cfg.lookupConcurrency := by
        intro pc hpc' x hx
        rcases ThreadPool.mem_tasks.mp hx with hx | ⟨w', hw', hcur⟩ | hx
        · rcases List.mem_append.mp ((hset _).subset (List.mem_append_right _ hx)) with hx | hx
          · rw [hpc' x hx]
            exact ⟨hcall, hfirst⟩
          · exact h.known_held hx
        · rcases List.mem_or_eq_of_mem_set hw' with hw' | rfl
          · exact h.known x (ThreadPool.mem_tasks.mpr (.inr (.inl ⟨w', hw', hcur⟩)))
          · exact h.known x
              (ThreadPool.mem_tasks.mpr (.inr (.inl ⟨w, List.mem_of_getElem? hw, hcur⟩)))
        · exact h.known x (ThreadPool.mem_tasks.mpr (.inr (.inr hx)))
      have hspec := onLookupPrefix_spec spurious hfirst hok.fail (h.scans ctx p hrun)
      generalize onLookupPrefix cfg archived spurious ctx.first (s.calls ctx.call) p = r at hstep hspec
      obtain ⟨call', o⟩ := r
      rcases hspec with ⟨rfl, hr⟩ | ⟨hl, hfail, hwt, hpc', p', rfl, hpok⟩
      · cases hr
        cases hstep
        have hheld : s.pool.held.Perm
            (ctx :: (s.pool.setWorker i { w with pc := .ret ctx }).held) := by
          have hperm := hset { w with pc := .ret ctx }
          rw [hwheld] at hperm
          exact hperm.symm
        refine h.setCall (.done _) (hknown _ fun x hx => absurd hx List.not_mem_nil)
          (hok.done hheld (h.scans ctx _ hrun)) (fun c' hc' hne => ?_) (fun x q hq => ?_)
          fun it x hm => .inl hm
        · exact (h.calls c' hc').other (Ne.symm hne) (.inr hheld)
        · rcases ThreadPool.runs_setWorker hq with hq | hq
          · exact .inl hq
          · cases hq
      · cases hstep
        have hheld : (s.pool.setWorker i { w with pc := .run ctx p' }).held.Perm s.pool.held := by
          have hperm := hset { w with pc := .run ctx p' }
          rw [hwheld] at hperm
          exact (List.perm_append_left_iff [ctx]).mp hperm
        refine h.setCall hl (hknown _ fun x hx => List.mem_singleton.mp hx)
          ((hok.scan hl hfail hwt hpc').perm hheld) (fun c' hc' _ => (h.calls c' hc').perm hheld)
          (fun x q hq => ?_) fun it x hm => .inl hm
        rcases ThreadPool.runs_setWorker hq with hq | hq
        · exact .inl hq
        · cases hq
          exact .inr ⟨rfl, hpok⟩
    · obtain ⟨b, hb, rfl⟩ := Option.map_eq_some_iff.mp hstep
      exact h.pool (ThreadPool.workerStep_tasks hb) (ThreadPool.workerStep_held hb)
        (fun ctx p hr => ThreadPool.workerStep_runs hb hr)
        fun it ctx hm => by rw [ThreadPool.workerStep_monitor hb] at hm; exact hm

theorem LookupInv.monitor (h : LookupInv cfg archived s) {overdue added spurious : Bool}
    (hC : TimeoutReported s (.monitor overdue added spurious))
    (hstep : s.monitorStep cfg overdue added spurious = some s') : LookupInv cfg archived s' := by
  unfold LookupState.monitorStep at hstep
  split_ifs at hstep
  split at hstep
  · rename_i it ctx p hm
    obtain ⟨hcall, hfirst⟩ := h.known_monitored hm
    have hok := h.calls _ hcall
    have hothers : ∀ pc : MonitorPc PrefixLookupContext ExpirePc, ∀ c' < s.nextCall,
        c' ≠ ctx.call → CallOk cfg archived { s.pool with monitor := pc }.held c' (s.calls c') :=
      fun pc c' hc' _ => h.calls c' hc'
    have hknown : ∀ pc : MonitorPc PrefixLookupContext ExpirePc,
        (∀ x ∈ ThreadPool.monitored { s.pool with monitor := pc }, x = ctx) →
        ∀ x ∈ ThreadPool.tasks { s.pool with monitor := pc },
          x.call < s.nextCall ∧ x.first < cfg.lookupConcurrency := by
      intro pc hpc x hx
      rcases ThreadPool.mem_tasks.mp hx with hx | hx | hx
      · exact h.known_held hx
      · exact h.known x (ThreadPool.mem_tasks.mpr (.inr (.inl hx)))
      · rw [hpc x hx]
        exact ⟨hcall, hfirst⟩
    cases p with
    | exchange =>
      simp only [TimeoutReported, hm] at hC
      simp only [onLookupPrefixTimeout] at hstep
      split_ifs at hstep with hcas <;> cases hstep
      · have hl : (s.calls ctx.call).Later { s.calls ctx.call with status := .timeout } :=
          ⟨rfl, Nat.le_refl _, fun hst => by cases hst⟩
        refine h.setCall hl (hknown _ fun x hx => List.mem_singleton.mp hx)
          (hok.expired hl hok.fail (by simp) id rfl) (hothers _) (fun x q hq => .inl hq)
          fun it' x hx => ?_
        cases hx
        exact .inr ⟨rfl, by simp⟩
      · have hst : (s.calls ctx.call).status ≠ .ok := fun hst => hcas ⟨hst, hC hst⟩
        refine h.setCall (.refl _) (hknown _ fun x hx => List.mem_singleton.mp hx)
          hok (hothers _) (fun x q hq => .inl hq) fun it' x hx => ?_
        cases hx
        exact .inr ⟨rfl, hst⟩
    | done =>
      cases hstep
      have hst := h.expired it ctx hm
      refine h.setCall (.done _) (hknown _ fun x hx => absurd hx List.not_mem_nil)
        (hok.expired (.done _) hok.fail hst (fun h0 => by simp [LookupCall.done, h0]) rfl)
        (hothers _) (fun x q hq => .inl hq) fun it' x hx => by cases hx
  · obtain ⟨b, hb, rfl⟩ := Option.map_eq_some_iff.mp hstep
    refine h.pool (ThreadPool.monitorStep_tasks hb) (ThreadPool.monitorStep_held hb)
      (fun ctx p hr => .inl (ThreadPool.monitorStep_runs hb hr)) fun it ctx hm => ?_
    cases ThreadPool.monitorStep_timeout hb it ctx hm

theorem LookupInv.caller (h : LookupInv cfg archived s) {c : Nat}
    (hstep : s.callerStep cfg c = some s') : LookupInv cfg archived s' := by
  unfold LookupState.callerStep at hstep
  split_ifs at hstep with hc
  obtain ⟨⟨call', ctxs⟩, hcall, rfl⟩ := Option.map_eq_some_iff.mp hstep
  have hpush := s.pool.queue.push_held ctxs
  have hheld : (s.pool.setQueue (s.pool.queue.push ctxs)).held.Perm (ctxs ++ s.pool.held) := by
    have := (hpush.append_right (s.pool.threads.flatMap Worker.held))
    rwa [List.append_assoc] at this
  have hctxs : ∀ x ∈ ctxs, x.call = c ∧ x.first < cfg.lookupConcurrency := by
    intro x hx
    unfold lookupOnPrefix at hcall
    repeat' split at hcall
    all_goals cases hcall
    all_goals first
      | exact absurd hx List.not_mem_nil
      | (rw [List.mem_singleton.mp hx]; exact ⟨rfl, ‹_›⟩)
  have hlater : (s.calls c).Later call' := by
    unfold lookupOnPrefix at hcall
    repeat' split at hcall
    all_goals cases hcall
    all_goals exact ⟨rfl, Nat.le_refl _, id⟩
  refine h.setCall hlater (fun x hx => ?_) ((h.calls c hc).caller hcall hheld)
    (fun c' hc' hne => ?_) (fun x q hq => .inl hq) fun it x hm => .inl hm
  · rcases ThreadPool.mem_tasks.mp hx with hx | hx | hx
    · rcases List.mem_append.mp (hheld.subset hx) with hx | hx
      · obtain ⟨rfl, hf⟩ := hctxs x hx
        exact ⟨hc, hf⟩
      · exact h.known_held hx
    · exact h.known x (ThreadPool.mem_tasks.mpr (.inr (.inl hx)))
    · exact h.known x (ThreadPool.mem_tasks.mpr (.inr (.inr hx)))
  · refine (h.calls c' hc').congr ?_ fun f hm => hheld.symm.subset (List.mem_append_right _ hm)
    have hnone : (ctxs.countP fun ctx => ctx.call = c') = 0 :=
      List.countP_eq_zero.mpr fun x hx => by simp [(hctxs x hx).1, Ne.symm hne]
    rw [hheld.countP_eq, List.countP_append, hnone, Nat.zero_add]

theorem LookupInv.newCall (h : LookupInv cfg archived s) (blocks : List BlockId) (oom : Bool) :
    LookupInv cfg archived { s.setCall s.nextCall (.enter cfg blocks oom) with
      nextCall := s.nextCall + 1 } where
  known := fun ctx hc => ⟨Nat.lt_succ_of_lt (h.known ctx hc).1, (h.known ctx hc).2⟩
  calls := by
    intro c hc
    by_cases hcn : c = s.nextCall
    · subst hcn
      simp only [LookupState.setCall, update_self]
      exact callOk_enter blocks oom fun ctx hctx => Nat.ne_of_lt (h.known_held hctx).1
    · simp only [LookupState.setCall, update_of_ne hcn]
      exact h.calls c (by dsimp only at hc; omega)
  scans := by
    intro ctx p hr
    have hne := Nat.ne_of_lt (h.known_held hr.held).1
    simp only [LookupState.setCall, update_of_ne hne]
    exact h.scans ctx p hr
  expired := by
    intro it ctx hm
    have hne := Nat.ne_of_lt (h.known_monitored hm).1
    simp only [LookupState.setCall, update_of_ne hne]
    exact h.expired it ctx hm

theorem lookupInv_reach (h : (lookupMachine cfg archived).Reach TimeoutReported s) :
    LookupInv cfg archived s := by
  refine h.inv (fun s hs => ?_) fun s e s' hs hC hstep => ?_
  · subst hs
    have htasks : (LookupState.start cfg).pool.tasks = [] := ThreadPool.start_tasks _
    have hheld : (LookupState.start cfg).pool.held = [] := ThreadPool.start_held _
    refine ⟨fun ctx hc => ?_, fun c hc => absurd hc (Nat.not_lt_zero c), fun ctx p hr => ?_,
      fun it ctx hm => by cases hm⟩
    · rw [htasks] at hc
      cases hc
    · have := hr.held
      rw [hheld] at this
      cases this
  · cases e with
    | call blocks oom =>
      cases hstep
      exact hs.newCall blocks oom
    | caller c => exact hs.caller hstep
    | worker i spurious => exact hs.worker hstep
    | monitor overdue added spurious => exact hs.monitor hC hstep

/-- **Prefix lookup is exact**, in every run in which `compare_exchange_weak` of
`OnLookupPrefixTimeout` never fails spuriously: when a call of `LookupOnPrefix` has returned `r`, the
blocks `0` to `r` of its list are there, and `r + 1` is the length of the list or the place of a block
that is not. -/
theorem lookupOnPrefix_exact (cfg : LookupConfig) (archived : BlockId → Bool) (s : LookupState)
    (h : (lookupMachine cfg archived).Reach TimeoutReported s) (c : Nat) (hc : c < s.nextCall)
    (r : Int) (hr : (s.calls c).pc = .returned r) :
    (∀ i : Nat, (i : Int) ≤ r → ∃ b, (s.calls c).blocks[i]? = some b ∧ archived b = true) ∧
      (r + 1 = (s.calls c).blocks.length ∨
        ∃ b, (s.calls c).blocks[(r + 1).toNat]? = some b ∧ archived b = false) := by
  have hpc := ((lookupInv_reach h).calls c hc).pc
  rw [hr] at hpc
  refine ⟨fun i hi => ?_, hpc.2.imp_right ?_⟩
  · have hl := hpc.1 i hi
    unfold LookupCall.lookup at hl
    cases hb : (s.calls c).blocks[i]? with
    | none =>
      rw [hb] at hl
      cases hl
    | some b =>
      rw [hb] at hl
      exact ⟨b, rfl, hl⟩
  · rintro ⟨j, hj, hlt, hl⟩
    rw [hj, Int.toNat_natCast]
    refine ⟨(s.calls c).blocks[j], List.getElem?_eq_getElem hlt, ?_⟩
    rw [LookupCall.lookup, List.getElem?_eq_getElem hlt] at hl
    exact hl

/-- A lookup of one block. The monitor gives up on the worker, whose slice is not scanned, and its
`compare_exchange_weak` fails spuriously. -/
def spuriousTrace : List LookupEvent :=
  [.call [6] false, .caller 0, .caller 0, .worker 0 false, .worker 0 false, .worker 0 false,
    .monitor false false false, .monitor false false false, .monitor false false false,
    .monitor true false false, .monitor false false true, .monitor false false false,
    .caller 0, .caller 0, .caller 0]

/-- No file is there, and the block is reported. -/
theorem lookupOnPrefix_inexact :
    ∃ s, (lookupMachine .small fun _ => false).Reachable s ∧ 0 < s.nextCall ∧
      (s.calls 0).blocks = [6] ∧ (s.calls 0).pc = .returned 0 := by
  obtain ⟨s, hs, hp⟩ := Machine.exists_reachable_of_run (M := lookupMachine .small fun _ => false)
    (s := .start .small) (l := spuriousTrace) (p := fun s => 0 < s.nextCall ∧
      (s.calls 0).blocks = [6] ∧ (s.calls 0).pc = .returned 0) rfl (by decide +kernel)
  exact ⟨s, hs, hp⟩

/-- A lookup of two blocks, of which the first is there. -/
theorem lookupOnPrefix_exact_two_blocks :
    ∃ s, (lookupMachine .small fun b => b == 6).Reach TimeoutReported s ∧
      (s.calls 0).blocks = [6, 7] ∧ (s.calls 0).pc = .returned 0 ∧
      ∃ b, (s.calls 0).blocks[1]? = some b ∧ (b == 6) = false := by
  obtain ⟨s, hreach, hp⟩ := Machine.exists_reach_of_run (M := lookupMachine .small fun b => b == 6)
    (C := TimeoutReported) (s := .start .small) (l := [.call [6, 7] false, .caller 0, .caller 0] ++
      List.replicate 13 (.worker 0 false) ++ [.caller 0, .caller 0, .caller 0])
    (p := fun s => 0 < s.nextCall ∧ (s.calls 0).blocks = [6, 7] ∧ (s.calls 0).pc = .returned 0) rfl
    (by decide +kernel)
  obtain ⟨hnext, hblocks, hpc⟩ := hp
  refine ⟨s, hreach, hblocks, hpc, ?_⟩
  rcases (lookupOnPrefix_exact .small _ s hreach 0 hnext 0 hpc).2 with hlen | hmiss
  · rw [hblocks] at hlen
    cases hlen
  · exact hmiss

end UnifiedCache.Posix
