import UnifiedCache.Cache.FetchNode
import Mathlib.Logic.Function.Iterate
import Mathlib.Algebra.Order.Ring.Nat

/-!
# Where the cursor stays in range

A call of `FetchNode` is safe as long as the cursor it has checked does not move to its limit before
it reads its index. In the shared strategy nothing moves in between; in the local one the other
dispatcher can, and then the call returns an index behind its limit.
-/

open Lib

namespace UnifiedCache.Cache

variable {cfg : StoreConfig} {s s' : Cursor} {ar : Bool}

/-! ## The sizes -/

namespace StoreConfig

theorem checkConfig_sizes (h : cfg.checkConfig = none) (hdev : cfg.deviceId ≠ -1) :
    1024 ≤ cfg.nNode ∧ cfg.loadExclusiveBufferNumber * 2 ≤ cfg.nNode := by
  by_contra hsmall
  have hb : (cfg.nNode < 1024 || cfg.nNode < cfg.loadExclusiveBufferNumber * 2) = true := by
    rw [Bool.or_eq_true, decide_eq_true_eq, decide_eq_true_eq]
    by_contra hn
    rw [not_or, UInt64.not_lt, UInt64.not_lt] at hn
    exact hsmall hn
  unfold checkConfig at h
  rw [if_pos hb, if_neg hdev] at h
  split_ifs at h
  split at h
  · cases h
  · split at h <;> cases h

theorem reserved_lt_nNode (h : cfg.checkConfig = none) (hdev : cfg.deviceId ≠ -1)
    (hr : cfg.loadExclusiveBufferNumber.toNat < 2 ^ 63) :
    cfg.loadExclusiveBufferNumber < cfg.nNode := by
  obtain ⟨hn, hd⟩ := checkConfig_sizes h hdev
  rw [UInt64.le_iff_toNat_le] at hn hd
  rw [UInt64.toNat_mul] at hd
  rw [UInt64.lt_iff_toNat_lt]
  have h2 : (2 : UInt64).toNat = 2 := rfl
  have h1024 : (1024 : UInt64).toNat = 1024 := rfl
  rw [h2, Nat.mod_eq_of_lt (by omega)] at hd
  omega

theorem limit_true : cfg.limit true = cfg.nNode := by
  simp [limit]

theorem limit_false_toNat (h : cfg.loadExclusiveBufferNumber < cfg.nNode) :
    (cfg.limit false).toNat = cfg.nNode.toNat - cfg.loadExclusiveBufferNumber.toNat := by
  unfold limit
  exact UInt64.toNat_sub_of_le _ _ (UInt64.le_of_lt h)

theorem limit_pos (h : cfg.loadExclusiveBufferNumber < cfg.nNode) : 0 < cfg.limit ar := by
  have hlt := UInt64.lt_iff_toNat_lt.mp h
  have h0 : (0 : UInt64).toNat = 0 := rfl
  rw [UInt64.lt_iff_toNat_lt, h0]
  cases ar with
  | true => rw [limit_true]; omega
  | false => rw [limit_false_toNat h]; omega

theorem lt_limit_iff (h : cfg.loadExclusiveBufferNumber < cfg.nNode) (iNode : UInt64) :
    iNode < cfg.limit ar ↔ iNode.toNat < cfg.nNode.toNat ∧
      (ar = false → iNode.toNat + cfg.loadExclusiveBufferNumber.toNat < cfg.nNode.toNat) := by
  have hlt := UInt64.lt_iff_toNat_lt.mp h
  rw [UInt64.lt_iff_toNat_lt]
  cases ar with
  | true => simp [limit_true]
  | false =>
    rw [limit_false_toNat h]
    simp only [forall_const]
    omega

end StoreConfig

/-! ## Undisturbed runs -/

namespace Cursor

open StoreConfig

@[simp] theorem goto_freeHead (s : Cursor) (pc : FetchPc) :
    (s.goto ar pc).freeHead = s.freeHead := rfl

@[simp] theorem goto_fetched (s : Cursor) (pc : FetchPc) :
    (s.goto ar pc).fetched = s.fetched := rfl

@[simp] theorem goto_pc_self (s : Cursor) (pc : FetchPc) : (s.goto ar pc).pc ar = pc := by
  simp [goto]

@[simp] theorem goto_pc_other (s : Cursor) (pc : FetchPc) :
    (s.goto ar pc).pc (!ar) = s.pc (!ar) := by
  cases ar <;> simp [goto]

theorem eq_or_eq_not (ar br : Bool) : br = ar ∨ br = !ar := by
  cases ar <;> cases br <;> simp

/-- What an undisturbed run keeps: the cursor a dispatcher has checked and the index it has read are
below its limit. -/
structure Inv (cfg : StoreConfig) (s : Cursor) : Prop where
  read : ∀ ar, s.pc ar = .read → s.freeHead < cfg.limit ar
  write : ∀ ar iNode, s.pc ar = .write iNode → iNode < cfg.limit ar
  fetched : ∀ ar iNode, (ar, iNode) ∈ s.fetched → iNode < cfg.limit ar

theorem inv_setup : Inv cfg setup where
  read _ h := by cases h
  write _ _ h := by cases h
  fetched _ _ h := by cases h

theorem Inv.goto (h : Inv cfg s) {pc : FetchPc} (hread : pc = .read → s.freeHead < cfg.limit ar)
    (hwrite : ∀ iNode, pc = .write iNode → iNode < cfg.limit ar) : Inv cfg (s.goto ar pc) where
  read br hbr := by
    rcases eq_or_eq_not ar br with rfl | rfl
    · rw [goto_pc_self] at hbr
      exact hread hbr
    · rw [goto_pc_other] at hbr
      exact h.read _ hbr
  write br iNode hbr := by
    rcases eq_or_eq_not ar br with rfl | rfl
    · rw [goto_pc_self] at hbr
      exact hwrite iNode hbr
    · rw [goto_pc_other] at hbr
      exact h.write _ _ hbr
  fetched := h.fetched

theorem Inv.access (h : Inv cfg s) (hu : s.Undisturbed cfg ar) : Inv cfg (s.access cfg ar) := by
  unfold Cursor.access
  cases hpc : s.pc ar with
  | compare =>
    dsimp only
    split_ifs with hle
    · exact h.goto nofun nofun
    · exact h.goto (fun _ => UInt64.not_le.mp hle) nofun
  | reset =>
    have h0 : Inv cfg { s with freeHead := 0 } :=
      { h with read := fun br _ => limit_pos hu.1 }
    exact h0.goto (fun _ => limit_pos hu.1) nofun
  | read =>
    refine h.goto nofun ?_
    rintro _ ⟨⟩
    exact h.read ar hpc
  | write iNode =>
    dsimp only
    refine ⟨?_, ?_, ?_⟩
    · intro br hbr
      rcases eq_or_eq_not ar br with rfl | rfl
      · rw [goto_pc_self] at hbr
        cases hbr
      · rw [goto_pc_other] at hbr
        exact hu.2 iNode hpc hbr
    · intro br i hbr
      rcases eq_or_eq_not ar br with rfl | rfl
      · rw [goto_pc_self] at hbr
        cases hbr
      · rw [goto_pc_other] at hbr
        exact h.write _ _ hbr
    · intro br i hmem
      rcases List.mem_cons.mp hmem with heq | hmem
      · cases heq
        exact h.write _ _ hpc
      · exact h.fetched _ _ hmem

theorem pc_shared (hs : cfg.strategy ≠ .localBuffer) (h : (cursorMachine cfg).Reachable s) :
    ∀ br, s.pc br = .compare := by
  refine Machine.Reach.inv (I := fun s => ∀ br, s.pc br = .compare) ?_ ?_ h
  · rintro s rfl br
    rfl
  · intro s ar s' hs' _ hstep
    change s.step cfg ar = some s' at hstep
    unfold step at hstep
    split_ifs at hstep
    split at hstep
    · contradiction
    · cases hstep
      exact hs'
    · cases hstep

theorem Inv.fetchNode (h : Inv cfg s) (hpc : ∀ br, s.pc br = .compare)
    (hr : cfg.loadExclusiveBufferNumber < cfg.nNode) : Inv cfg (s.fetchNode cfg ar) where
  read br hbr := by
    have := hpc br
    simp only [Cursor.fetchNode] at hbr
    rw [this] at hbr
    cases hbr
  write br i hbr := by
    have := hpc br
    simp only [Cursor.fetchNode] at hbr
    rw [this] at hbr
    cases hbr
  fetched br i hmem := by
    rcases List.mem_cons.mp hmem with heq | hmem
    · cases heq
      split_ifs with hle
      · exact limit_pos hr
      · exact UInt64.not_le.mp hle
    · exact h.fetched _ _ hmem

theorem step_eq (h : s.step cfg ar = some s') :
    cfg.strategy = .localBuffer ∧ s' = s.access cfg ar ∨
      cfg.strategy = .sharedBuffer ∧ s' = s.fetchNode cfg ar := by
  unfold step at h
  split_ifs at h
  split at h
  · next hs => exact .inl ⟨hs, (Option.some.inj h).symm⟩
  · next hs => exact .inr ⟨hs, (Option.some.inj h).symm⟩
  · cases h

theorem Reach.inv (h : (cursorMachine cfg).Reach (Undisturbed cfg) s) : Inv cfg s := by
  induction h with
  | init h =>
    cases h
    exact inv_setup
  | step hs hu hstep ih =>
    rcases step_eq hstep with ⟨-, rfl⟩ | ⟨hshared, rfl⟩
    · exact ih.access hu
    · refine ih.fetchNode (pc_shared ?_ hs.reachable) hu.1
      rw [hshared]
      decide

/-! ## Disturbed runs -/

theorem step_local (hdev : ¬ cfg.deviceId < 0) (hl : cfg.strategy = .localBuffer) (s : Cursor)
    (ar : Bool) : (cursorMachine cfg).step s ar = some (s.access cfg ar) := by
  change s.step cfg ar = _
  unfold step
  rw [if_neg hdev, hl]

theorem step_shared (hdev : ¬ cfg.deviceId < 0) (hs : cfg.strategy = .sharedBuffer) (s : Cursor)
    (ar : Bool) : (cursorMachine cfg).step s ar = some (s.fetchNode cfg ar) := by
  change s.step cfg ar = _
  unfold step
  rw [if_neg hdev, hs]

theorem later_access (hdev : ¬ cfg.deviceId < 0) (hl : cfg.strategy = .localBuffer)
    (h : ((cursorMachine cfg).after (s.access cfg ar)).Reachable s') :
    ((cursorMachine cfg).after s).Reachable s' :=
  Machine.Reach.cons trivial (step_local hdev hl s ar) h

theorem write_returns (hdev : ¬ cfg.deviceId < 0) (hl : cfg.strategy = .localBuffer)
    {iNode : UInt64} (hpc : s.pc ar = .write iNode) :
    ∃ s', ((cursorMachine cfg).after s).Reachable s' ∧ (ar, iNode) ∈ s'.fetched := by
  refine ⟨s.access cfg ar, later_access hdev hl (.init rfl), ?_⟩
  unfold access
  rw [hpc]
  exact List.mem_cons_self

theorem read_returns (hdev : ¬ cfg.deviceId < 0) (hl : cfg.strategy = .localBuffer)
    (hpc : s.pc ar = .read) :
    ∃ s', ((cursorMachine cfg).after s).Reachable s' ∧ (ar, s.freeHead) ∈ s'.fetched := by
  have hacc : s.access cfg ar = s.goto ar (.write s.freeHead) := by
    unfold access
    rw [hpc]
  obtain ⟨t, ht, hmem⟩ := write_returns hdev hl
    (goto_pc_self s (.write s.freeHead) : (s.goto ar (.write s.freeHead)).pc ar = _)
  exact ⟨t, later_access hdev hl (hacc ▸ ht), hmem⟩

theorem call_returns (hdev : ¬ cfg.deviceId < 0) (hl : cfg.strategy = .localBuffer) (s : Cursor)
    (ar : Bool) :
    ∃ s' iNode, ((cursorMachine cfg).after s).Reachable s' ∧ (ar, iNode) ∈ s'.fetched := by
  have hread : ∀ s : Cursor, s.pc ar = .read →
      ∃ s' iNode, ((cursorMachine cfg).after s).Reachable s' ∧ (ar, iNode) ∈ s'.fetched := by
    intro s hpc
    obtain ⟨t, ht, hmem⟩ := read_returns hdev hl hpc
    exact ⟨t, _, ht, hmem⟩
  have hreset : ∀ s : Cursor, s.pc ar = .reset →
      ∃ s' iNode, ((cursorMachine cfg).after s).Reachable s' ∧ (ar, iNode) ∈ s'.fetched := by
    intro s hpc
    obtain ⟨t, i, ht, hmem⟩ := hread (s.access cfg ar) (by simp [access, hpc])
    exact ⟨t, i, later_access hdev hl ht, hmem⟩
  cases hpc : s.pc ar with
  | compare =>
    by_cases hle : cfg.limit ar ≤ s.freeHead
    · obtain ⟨t, i, ht, hmem⟩ := hreset (s.access cfg ar) (by simp [access, hpc, hle])
      exact ⟨t, i, later_access hdev hl ht, hmem⟩
    · obtain ⟨t, i, ht, hmem⟩ := hread (s.access cfg ar) (by simp [access, hpc, hle])
      exact ⟨t, i, later_access hdev hl ht, hmem⟩
  | reset => exact hreset s hpc
  | read => exact hread s hpc
  | write i =>
    obtain ⟨t, ht, hmem⟩ := write_returns hdev hl hpc
    exact ⟨t, i, ht, hmem⟩

theorem not_inRange_of_reserved {iNode : UInt64}
    (hr : ¬ cfg.loadExclusiveBufferNumber < cfg.nNode) (hmem : (false, iNode) ∈ s.fetched) :
    ¬ s.InRange cfg := by
  intro h
  have := (h false iNode hmem).2 rfl
  rw [UInt64.lt_iff_toNat_lt] at hr
  omega

theorem disturbed (hs : (cursorMachine cfg).Reachable s) (hstep : s.step cfg ar = some s')
    (hu : ¬ s.Undisturbed cfg ar) :
    ∃ t, ((cursorMachine cfg).after s').Reachable t ∧ ¬ t.InRange cfg := by
  have hdev : ¬ cfg.deviceId < 0 := by
    intro hdev
    rw [step, if_pos hdev] at hstep
    cases hstep
  by_cases hr : cfg.loadExclusiveBufferNumber < cfg.nNode
  · have hdist : ∃ iNode, s.pc ar = .write iNode ∧ s.pc (!ar) = .read ∧
        ¬ iNode + 1 < cfg.limit (!ar) := by
      by_contra hno
      refine hu ⟨hr, fun i hw hrd => ?_⟩
      by_contra hlt
      exact hno ⟨i, hw, hrd, hlt⟩
    obtain ⟨iNode, hw, hrd, hlt⟩ := hdist
    rcases step_eq hstep with ⟨hl, rfl⟩ | ⟨hshared, rfl⟩
    · have hfree : (s.access cfg ar).freeHead = iNode + 1 := by simp [access, hw]
      have hpc : (s.access cfg ar).pc (!ar) = .read := by simp [access, hw, hrd]
      obtain ⟨t, ht, hmem⟩ := read_returns hdev hl hpc
      refine ⟨t, ht, fun hin => hlt ?_⟩
      rw [hfree] at hmem
      exact (lt_limit_iff hr _).mpr (hin _ _ hmem)
    · have hpc := pc_shared (by rw [hshared]; decide) hs ar
      rw [hw] at hpc
      cases hpc
  · rcases step_eq hstep with ⟨hl, rfl⟩ | ⟨hshared, rfl⟩
    · obtain ⟨t, i, ht, hmem⟩ := call_returns hdev hl (s.access cfg ar) false
      exact ⟨t, ht, not_inRange_of_reserved hr hmem⟩
    · refine ⟨(s.fetchNode cfg ar).fetchNode cfg false, ?_,
        not_inRange_of_reserved hr List.mem_cons_self⟩
      exact Machine.Reach.cons trivial (step_shared hdev hshared _ false) (.init rfl)

end Cursor

open Cursor

/-- A buffer whose size passes `CheckConfig` has nodes left for dumps unless the doubling wraps
around. While it has, and no dispatcher stores a cursor at or behind the limit of the other one
between that one's check and its read, every index is a node and no dump gets a reserved one; and
once a step is not like that, some call can go out of range. -/
theorem fetchNode_in_range (cfg : StoreConfig) (h : cfg.checkConfig = none) :
    (cfg.deviceId ≠ -1 → cfg.loadExclusiveBufferNumber.toNat < 2 ^ 63 →
      cfg.loadExclusiveBufferNumber < cfg.nNode) ∧
    (∀ s, (cursorMachine cfg).Reach (Undisturbed cfg) s → s.InRange cfg) ∧
    ∀ s allowReserved s', (cursorMachine cfg).Reachable s →
      (cursorMachine cfg).step s allowReserved = some s' → ¬ s.Undisturbed cfg allowReserved →
      ∃ t, ((cursorMachine cfg).after s').Reachable t ∧ ¬ t.InRange cfg := by
  refine ⟨StoreConfig.reserved_lt_nNode h, ?_, fun s ar s' hs hstep => disturbed hs hstep⟩
  intro s hs ar iNode hmem
  have hr : cfg.loadExclusiveBufferNumber < cfg.nNode := by
    cases hs with
    | init h =>
      cases h
      cases hmem
    | step _ hu _ => exact hu.1
  exact (StoreConfig.lt_limit_iff hr iNode).mp ((Reach.inv hs).fetched ar iNode hmem)

/-- The dispatchers take turns: a dump and a load are handed the first two nodes. -/
theorem fetchNode_in_turn :
    ∃ s, (cursorMachine StoreConfig.small).Reach (Undisturbed .small) s ∧
      (true, 1) ∈ s.fetched ∧ (false, 0) ∈ s.fetched ∧ s.InRange .small := by
  let alone : Cursor → Bool → Bool := fun s ar => s.pc (!ar) == .compare
  have halone : ∀ s ar, (cursorMachine StoreConfig.small).Reachable s → alone s ar = true →
      Undisturbed .small s ar := by
    intro s ar _ hs
    refine ⟨by decide +kernel, fun _ _ hpc => ?_⟩
    rw [eq_of_beq hs] at hpc
    cases hpc
  obtain ⟨s, hs, hp⟩ := Machine.exists_reachable_of_run
    (M := (cursorMachine StoreConfig.small).guard alone)
    (l := [false, false, false, true, true, true]) (p := fun s : Cursor => (true, 1) ∈ s.fetched ∧
      (false, 0) ∈ s.fetched) rfl (by decide +kernel)
  have hreach := Machine.Reach.of_guard halone hs
  obtain ⟨h1, h0⟩ := hp
  exact ⟨s, hreach, h1, h0, (fetchNode_in_range .small (by decide +kernel)).2.1 s hreach⟩

/-! ## A run out of range -/

namespace Cursor

/-- A whole call that finds the cursor below its limit. -/
def call (ar : Bool) (s : Cursor) : Cursor :=
  { s with freeHead := s.freeHead + 1, fetched := (ar, s.freeHead) :: s.fetched }

theorem calls_spec (s : Cursor) (ar : Bool) (n : Nat) (hn : s.freeHead.toNat + n < 2 ^ 64) :
    ((call ar)^[n] s).freeHead.toNat = s.freeHead.toNat + n ∧ ((call ar)^[n] s).pc = s.pc := by
  induction n with
  | zero => exact ⟨rfl, rfl⟩
  | succ n ih =>
    obtain ⟨hfree, hpc⟩ := ih (by omega)
    rw [Function.iterate_succ_apply']
    refine ⟨?_, hpc⟩
    change (((call ar)^[n] s).freeHead + 1).toNat = _
    have h1 : (1 : UInt64).toNat = 1 := rfl
    rw [UInt64.toNat_add, hfree, h1, Nat.mod_eq_of_lt (by omega)]
    omega

theorem access_call (hpc : s.pc ar = .compare) (hlt : s.freeHead < cfg.limit ar) :
    ((s.access cfg ar).access cfg ar).access cfg ar = s.call ar := by
  have h1 : s.access cfg ar = s.goto ar .read := by
    simp only [access, hpc, if_neg (UInt64.not_le.mpr hlt)]
  have h2 : (s.goto ar .read).access cfg ar = s.goto ar (.write s.freeHead) := by
    unfold access
    rw [goto_pc_self]
    simp [goto]
  rw [h1, h2]
  unfold access
  rw [goto_pc_self]
  simp [goto, call, ← hpc]

theorem fetchNode_call (hlt : s.freeHead < cfg.limit ar) : s.fetchNode cfg ar = s.call ar := by
  simp only [fetchNode, call, if_neg (UInt64.not_le.mpr hlt)]

theorem reachable_access (hdev : ¬ cfg.deviceId < 0) (hl : cfg.strategy = .localBuffer)
    (hs : (cursorMachine cfg).Reachable s) (ar : Bool) :
    (cursorMachine cfg).Reachable (s.access cfg ar) :=
  .step hs trivial (step_local hdev hl s ar)

theorem reachable_calls (hdev : ¬ cfg.deviceId < 0) (hw : cfg.strategy ≠ .sharedBufferWatcher)
    (hs : (cursorMachine cfg).Reachable s) (ar : Bool) (n : Nat) (hpc : s.pc ar = .compare)
    (hn : s.freeHead.toNat + n ≤ (cfg.limit ar).toNat) :
    (cursorMachine cfg).Reachable ((call ar)^[n] s) := by
  have hword := (cfg.limit ar).toNat_lt
  induction n with
  | zero => exact hs
  | succ n ih =>
    obtain ⟨hfree, hpc'⟩ := calls_spec s ar n (by omega)
    have hlt : ((call ar)^[n] s).freeHead < cfg.limit ar := by
      rw [UInt64.lt_iff_toNat_lt]
      omega
    rw [Function.iterate_succ_apply']
    cases hst : cfg.strategy with
    | localBuffer =>
      rw [← access_call (by rw [hpc']; exact hpc) hlt]
      have h1 := reachable_access hdev hst (ih (by omega)) ar
      have h2 := reachable_access hdev hst h1 ar
      exact reachable_access hdev hst h2 ar
    | sharedBuffer =>
      rw [← fetchNode_call hlt]
      exact .step (ih (by omega)) trivial (step_shared hdev hst _ ar)
    | sharedBufferWatcher => exact absurd hst hw

end Cursor

/-- A dump checks the cursor at 511 and reads it at 1023, loads having moved it on; it stores 1024
while a load has checked 1023, and the load gets a node that does not exist. -/
theorem race : ∃ s, (cursorMachine StoreConfig.small).Reachable s ∧
    (false, 1023) ∈ s.fetched ∧ (true, 1024) ∈ s.fetched := by
  have hdev : ¬ StoreConfig.small.deviceId < 0 := by decide
  have hl : StoreConfig.small.strategy = .localBuffer := by decide
  have hlimit : StoreConfig.small.limit true = 1024 ∧ StoreConfig.small.limit false = 512 := by
    decide +kernel
  have hnext : ∀ {s : Cursor} (ar : Bool), (cursorMachine StoreConfig.small).Reachable s →
      (cursorMachine StoreConfig.small).Reachable (s.access .small ar) :=
    fun ar hs => reachable_access hdev hl hs ar
  have hw : StoreConfig.small.strategy ≠ .sharedBufferWatcher := by decide
  have h0 := reachable_calls hdev hw (.init rfl) true 511 rfl (by rw [hlimit.1]; decide)
  obtain ⟨hfree, hpc⟩ := calls_spec setup true 511 (by decide)
  generalize (call true)^[511] setup = s at h0 hfree hpc
  have hcheck : s.access .small false = s.goto false .read := by
    have : ¬ (512 : UInt64) ≤ s.freeHead := by
      rw [UInt64.le_iff_toNat_le, hfree]
      decide
    simp [access, hpc, setup, hlimit, this]
  have h1 := hcheck ▸ hnext false h0
  have h2 := reachable_calls hdev hw h1 true 512 (by simp [goto, hpc, setup])
    (by rw [goto_freeHead, hfree, hlimit.1]; decide)
  obtain ⟨hfree', hpc'⟩ := calls_spec (s.goto false .read) true 512
    (by rw [goto_freeHead, hfree]; decide)
  generalize (call true)^[512] (s.goto false .read) = t at h2 hfree' hpc'
  rw [goto_freeHead, hfree] at hfree'
  have ht : t.freeHead = 1023 := UInt64.toNat_inj.mp hfree'
  have hfalse : t.pc false = .read := by rw [hpc', goto_pc_self]
  have htrue : t.pc true = .compare := by simp [hpc', goto, hpc, setup]
  have h3 := hnext true (hnext true (hnext false (hnext true (hnext false h2))))
  refine ⟨_, h3, ?_⟩
  simp [access, goto, ht, hfalse, htrue, hlimit]

/-- The cursor leaves its range in a race, and without one when the reserved nodes double to 0. -/
theorem fetchNode_out_of_range :
    (StoreConfig.small.checkConfig = none ∧ StoreConfig.small.nNode = 1024 ∧
      ∃ s, (cursorMachine StoreConfig.small).Reachable s ∧
        ((false, 1023) ∈ s.fetched ∧ (true, 1024) ∈ s.fetched) ∧ ¬ s.InRange .small) ∧
    StoreConfig.doubled.checkConfig = none ∧ StoreConfig.doubled.nNode = 1024 ∧
      ∃ s, (cursorMachine StoreConfig.doubled).Reachable s ∧
        (false, 1024) ∈ s.fetched ∧ ¬ s.InRange .doubled := by
  refine ⟨⟨by decide +kernel, by decide +kernel, ?_⟩, by decide +kernel, by decide +kernel, ?_⟩
  · obtain ⟨s, hs, hmem⟩ := race
    refine ⟨s, hs, hmem, fun hin => ?_⟩
    exact absurd (hin _ _ hmem.2).1 (by decide +kernel)
  · have hlimit : 1025 ≤ (StoreConfig.doubled.limit false).toNat := by decide +kernel
    have h0 : (cursorMachine StoreConfig.doubled).Reachable setup := .init rfl
    have hs := reachable_calls (by decide) (by decide) h0 false 1025 rfl hlimit
    obtain ⟨hfree, -⟩ := calls_spec setup false 1024 (by decide)
    rw [Function.iterate_succ_apply'] at hs
    have hlast : ((call false)^[1024] setup).freeHead = 1024 := UInt64.toNat_inj.mp hfree
    have hmem : (false, 1024) ∈ (call false ((call false)^[1024] setup)).fetched := by
      rw [← hlast]
      exact List.mem_cons_self
    refine ⟨_, hs, hmem, fun hin => ?_⟩
    exact absurd (hin _ _ hmem).1 (by decide +kernel)

end UnifiedCache.Cache
