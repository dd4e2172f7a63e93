import UnifiedCache.Infra.IndexPool
import Mathlib.Data.List.Nodup
import Mathlib.Data.List.Range
import Mathlib.Tactic.Common

/-!
# The index pool hands out every index once

Every index has one place: the free list, the holders, or a thread that is releasing it. What a thread has
read of the list is still true as long as the head was not swapped since it loaded the head, and the version
tells it so. A capacity of all indices does not leave room for the end of the list.
-/

open Function Lib

namespace UnifiedCache.Infra.IndexPool

/-- Where an index is. -/
inductive Place where
  | free
  | held
  | releasing (t : Nat)

variable {s s' : State} {free : List Nat} {place : Nat → Place} {t idx slot : Nat} {ptr : Pointer}

namespace State

/-- What a thread knows of the head that it has loaded. -/
structure Current (s : State) (t : Nat) (ptr : Pointer) : Prop where
  ver : ptr.ver = s.seen t % width
  pointer : s.seen t = s.swaps → s.pointer = ptr

/-- What a thread knows where it is. -/
def Fresh (s : State) (t : Nat) : Pc → Prop
  | .acquireNext ptr => 0 < ptr.slot ∧ ptr.slot ≤ s.capacity ∧ s.Current t ptr
  | .acquireSwap ptr next => 0 < ptr.slot ∧ s.Current t ptr ∧
      (s.seen t = s.swaps → s.next ptr.slot = next)
  | .releaseNext _ ptr => s.Current t ptr
  | .releaseSwap slot ptr => s.Current t ptr ∧ s.next slot = ptr.slot
  | _ => True

/-- Every index has one place, and the threads know what they know. -/
structure Inv (s : State) (free : List Nat) (place : Nat → Place) : Prop where
  chain : Chain s.next 0 s.pointer.slot (free.map (· + 1))
  free_nodup : free.Nodup
  held_nodup : s.held.Nodup
  free_iff : ∀ idx, idx ∈ free ↔ idx < s.capacity ∧ place idx = .free
  held_iff : ∀ idx, idx ∈ s.held ↔ idx < s.capacity ∧ place idx = .held
  releasing_iff : ∀ t idx, (s.pc t).releasing = some (idx + 1) ↔
    idx < s.capacity ∧ place idx = .releasing t
  releasing_pos : ∀ t, (s.pc t).releasing ≠ some 0
  ver : s.pointer.ver = s.swaps % width
  seen_le : ∀ t, s.seen t ≤ s.swaps
  fresh : ∀ t, s.Fresh t (s.pc t)
  capacity : s.capacity + 1 < width

theorem Current.congr (h : s.Current t ptr) (hp : s'.pointer = s.pointer) (hsw : s'.swaps = s.swaps)
    (hseen : s'.seen t = s.seen t) : s'.Current t ptr where
  ver := by rw [hseen]; exact h.ver
  pointer := by rw [hseen, hsw, hp]; exact h.pointer

theorem Inv.current (h : s.Inv free place) (hp : s'.pointer = s.pointer) (hseen : s'.seen t = s.swaps) :
    s'.Current t s.pointer where
  ver := by rw [hseen]; exact h.ver
  pointer _ := hp

theorem Current.swapped (h : s.Current t ptr) (hle : s.seen t ≤ s.swaps)
    (hsw : s'.swaps = s.swaps + 1) (hseen : s'.seen t = s.seen t) : s'.Current t ptr where
  ver := by rw [hseen]; exact h.ver
  pointer := by
    rw [hseen, hsw]
    omega

theorem Fresh.frame {pc : Pc} (h : s.Fresh t pc) (hcap : s'.capacity = s.capacity)
    (hcur : ∀ ptr, s.Current t ptr → s'.Current t ptr)
    (hread : ∀ ptr next, pc = .acquireSwap ptr next → s.Current t ptr → s'.seen t = s'.swaps →
      s.seen t = s.swaps ∧ s'.next ptr.slot = s.next ptr.slot)
    (hwritten : ∀ slot ptr, pc = .releaseSwap slot ptr → s'.next slot = s.next slot) :
    s'.Fresh t pc := by
  cases pc with
  | idle => trivial
  | acquire => trivial
  | release slot => trivial
  | acquireNext ptr =>
    obtain ⟨hpos, hslot, hc⟩ := h
    exact ⟨hpos, hcap ▸ hslot, hcur ptr hc⟩
  | acquireSwap ptr next =>
    obtain ⟨hpos, hc, hn⟩ := h
    refine ⟨hpos, hcur ptr hc, fun hseen => ?_⟩
    obtain ⟨hold, hnext⟩ := hread ptr next rfl hc hseen
    rw [hnext]
    exact hn hold
  | releaseNext slot ptr => exact hcur ptr h
  | releaseSwap slot ptr =>
    refine ⟨hcur ptr h.1, ?_⟩
    rw [hwritten slot ptr rfl]
    exact h.2

/-- **The version excludes a stale swap.** If the head compares equal, it was not swapped. -/
theorem Inv.seen_eq (h : s.Inv free place) (hc : s.Current t ptr) (heq : s.pointer = ptr)
    (hwrap : s.swaps - s.seen t < width) : s.seen t = s.swaps := by
  have hmod : s.swaps % width = s.seen t % width := by rw [← h.ver, ← hc.ver, heq]
  have hzero := Nat.sub_mod_eq_zero_of_mod_eq hmod
  rw [Nat.mod_eq_of_lt hwrap] at hzero
  have hle := h.seen_le t
  omega

theorem Inv.head (h : s.Inv free place) (hpos : 0 < s.pointer.slot) :
    ∃ rest, free = (s.pointer.slot - 1) :: rest ∧
      Chain s.next 0 (s.next s.pointer.slot) (rest.map (· + 1)) := by
  obtain ⟨rest, hrest, hchain⟩ := h.chain.exists_cons (Nat.ne_of_gt hpos)
  cases free with
  | nil => cases hrest
  | cons idx free =>
    rw [List.map_cons, List.cons.injEq] at hrest
    obtain ⟨hidx, rfl⟩ := hrest
    refine ⟨free, ?_, hchain⟩
    rw [show s.pointer.slot - 1 = idx by omega]

theorem Inv.head_le (h : s.Inv free place) (hpos : 0 < s.pointer.slot) :
    s.pointer.slot ≤ s.capacity := by
  obtain ⟨rest, hfree, -⟩ := h.head hpos
  have hmem : s.pointer.slot - 1 ∈ free := by
    rw [hfree]
    exact List.mem_cons_self
  have hlt := ((h.free_iff _).mp hmem).1
  omega

theorem Inv.free_nil (h : s.Inv free place) (hzero : s.pointer.slot = 0) : free = [] := by
  have hchain := h.chain
  rw [hzero] at hchain
  exact List.map_eq_nil_iff.mp hchain.eq_nil

/-! ## Steps -/

theorem releasing_update (f : Nat → Pc) (t : Nat) (pc : Pc) (t' : Nat) :
    (update f t pc t').releasing = if t' = t then pc.releasing else (f t').releasing := by
  rcases eq_or_ne t' t with rfl | hne
  · rw [update_self, if_pos rfl]
  · rw [update_of_ne hne, if_neg hne]

theorem Inv.keep (h : s.Inv free place) (hcap : s'.capacity = s.capacity) (hheld : s'.held = s.held)
    (hreleasing : ∀ t, (s'.pc t).releasing = (s.pc t).releasing)
    (hchain : Chain s'.next 0 s'.pointer.slot (free.map (· + 1)))
    (hver : s'.pointer.ver = s'.swaps % width) (hle : ∀ t, s'.seen t ≤ s'.swaps)
    (hfresh : ∀ t, s'.Fresh t (s'.pc t)) : s'.Inv free place where
  chain := hchain
  free_nodup := h.free_nodup
  held_nodup := hheld ▸ h.held_nodup
  free_iff idx := hcap ▸ h.free_iff idx
  held_iff idx := by
    rw [hcap, hheld]
    exact h.held_iff idx
  releasing_iff t idx := by
    rw [hreleasing, hcap]
    exact h.releasing_iff t idx
  releasing_pos t := by
    rw [hreleasing]
    exact h.releasing_pos t
  ver := hver
  seen_le := hle
  fresh := hfresh
  capacity := hcap ▸ h.capacity

theorem Inv.move (h : s.Inv free place) {pc : Pc} (hpc : s'.pc = update s.pc t pc)
    (hcap : s'.capacity = s.capacity) (hnext : s'.next = s.next) (hp : s'.pointer = s.pointer)
    (hheld : s'.held = s.held) (hsw : s'.swaps = s.swaps)
    (hseen : ∀ t', t' ≠ t → s'.seen t' = s.seen t') (hle : s'.seen t ≤ s.swaps)
    (hrel : pc.releasing = (s.pc t).releasing) (hfresh : s'.Fresh t pc) : s'.Inv free place := by
  refine h.keep hcap hheld (fun t' => ?_) ?_ ?_ (fun t' => ?_) fun t' => ?_
  · rw [hpc, releasing_update]
    split
    · rename_i heq
      rw [hrel, heq]
    · rfl
  · rw [hnext, hp]
    exact h.chain
  · rw [hp, hsw]
    exact h.ver
  · rw [hsw]
    rcases eq_or_ne t' t with rfl | hne
    · exact hle
    · rw [hseen t' hne]
      exact h.seen_le t'
  · rw [hpc]
    rcases eq_or_ne t' t with rfl | hne
    · rw [update_self]
      exact hfresh
    · rw [update_of_ne hne]
      refine (h.fresh t').frame hcap (fun ptr hc => hc.congr hp hsw (hseen t' hne)) ?_ ?_
      · intro ptr next _ _ hcurrent
        rw [hseen t' hne, hsw] at hcurrent
        exact ⟨hcurrent, by rw [hnext]⟩
      · intro slot ptr _
        rw [hnext]

theorem Inv.callAcquire (h : s.Inv free place) (hs : s.callAcquire t = some s') :
    s'.Inv free place := by
  unfold State.callAcquire at hs
  split at hs
  · rename_i hpc
    obtain rfl := Option.some.inj hs
    exact h.move (t := t) rfl rfl rfl rfl rfl rfl (fun _ _ => rfl) (h.seen_le t) (by rw [hpc]; rfl)
      trivial
  · cases hs

theorem Inv.load (h : s.Inv free place) (hs : s.load t = some s') : s'.Inv free place := by
  unfold State.load at hs
  have hseen : ∀ t', t' ≠ t → update s.seen t s.swaps t' = s.seen t' :=
    fun t' hne => update_of_ne hne _ _
  have hself : update s.seen t s.swaps t = s.swaps := update_self _ _ _
  split at hs
  · rename_i hpc
    split at hs
    · obtain rfl := Option.some.inj hs
      exact h.move (t := t) rfl rfl rfl rfl rfl rfl (fun _ _ => rfl) (h.seen_le t)
        (by rw [hpc]; rfl) trivial
    · rename_i hslot
      obtain rfl := Option.some.inj hs
      have hpos : 0 < s.pointer.slot := by omega
      exact h.move (t := t) rfl rfl rfl rfl rfl rfl hseen (Nat.le_of_eq hself) (by rw [hpc]; rfl)
        ⟨hpos, h.head_le hpos, h.current rfl hself⟩
  · rename_i slot hpc
    obtain rfl := Option.some.inj hs
    exact h.move (t := t) rfl rfl rfl rfl rfl rfl hseen (Nat.le_of_eq hself) (by rw [hpc]; rfl)
      (h.current rfl hself)
  · cases hs

theorem Inv.relocate (h : s.Inv free place) {i : Nat} {q : Place} {free' : List Nat}
    (hi : i < s.capacity) (hcap : s'.capacity = s.capacity)
    (hfree : ∀ idx, idx ∈ free' ↔ if idx = i then q = .free else idx ∈ free)
    (hheld : ∀ idx, idx ∈ s'.held ↔ if idx = i then q = .held else idx ∈ s.held)
    (hreleasing : ∀ t idx, (s'.pc t).releasing = some (idx + 1) ↔
      if idx = i then q = .releasing t else (s.pc t).releasing = some (idx + 1))
    (hpos : ∀ t, (s'.pc t).releasing ≠ some 0)
    (hchain : Chain s'.next 0 s'.pointer.slot (free'.map (· + 1))) (hfn : free'.Nodup)
    (hhn : s'.held.Nodup) (hver : s'.pointer.ver = s'.swaps % width)
    (hle : ∀ t, s'.seen t ≤ s'.swaps) (hfresh : ∀ t, s'.Fresh t (s'.pc t)) :
    s'.Inv free' (update place i q) where
  chain := hchain
  free_nodup := hfn
  held_nodup := hhn
  free_iff idx := by
    rw [hfree, hcap]
    rcases eq_or_ne idx i with rfl | hne
    · simp [hi]
    · rw [if_neg hne, update_of_ne hne, h.free_iff]
  held_iff idx := by
    rw [hheld, hcap]
    rcases eq_or_ne idx i with rfl | hne
    · simp [hi]
    · rw [if_neg hne, update_of_ne hne, h.held_iff]
  releasing_iff t idx := by
    rw [hreleasing, hcap]
    rcases eq_or_ne idx i with rfl | hne
    · simp [hi]
    · rw [if_neg hne, update_of_ne hne, h.releasing_iff]
  releasing_pos := hpos
  ver := hver
  seen_le := hle
  fresh := hfresh
  capacity := by
    rw [hcap]
    exact h.capacity

theorem Inv.callRelease (h : s.Inv free place) (hs : s.callRelease t idx = some s') :
    ∃ place', s'.Inv free place' := by
  unfold State.callRelease at hs
  split at hs
  swap
  · cases hs
  rename_i hpc
  split at hs
  · cases hs
  rename_i hmem
  have hmem : idx ∈ s.held := not_not.mp hmem
  split at hs
  · obtain rfl := Option.some.inj hs
    exact ⟨place, h⟩
  obtain ⟨hlt, hplace⟩ := (h.held_iff idx).mp hmem
  obtain rfl := Option.some.inj hs
  have hrel := releasing_update s.pc t (.release (idx + 1))
  refine ⟨_, h.relocate hlt rfl (q := .releasing t) ?_ ?_ ?_ ?_ h.chain h.free_nodup ?_ h.ver h.seen_le ?_⟩
  · intro idx'
    split
    · rename_i heq
      subst heq
      simp [h.free_iff, hplace]
    · rfl
  · intro idx'
    rw [h.held_nodup.mem_erase_iff]
    split
    · rename_i heq
      simp [heq]
    · rename_i hne
      simp [hne]
  · intro t' idx'
    dsimp only
    rw [hrel]
    rcases eq_or_ne t' t with rfl | hne
    · rw [if_pos rfl, hpc]
      simp only [Pc.releasing, Option.some.injEq, Nat.add_right_cancel_iff]
      split
      · simp [*]
      · rename_i hne
        simp [Ne.symm hne]
    · rw [if_neg hne]
      split
      · rename_i heq
        subst heq
        simp [h.releasing_iff, hplace, hne.symm]
      · rfl
  · intro t'
    dsimp only
    rw [hrel]
    split
    · simp [Pc.releasing]
    · exact h.releasing_pos t'
  · exact h.held_nodup.erase idx
  · intro t'
    show State.Fresh _ t' (update s.pc t (.release (idx + 1)) t')
    rcases eq_or_ne t' t with rfl | hne
    · rw [update_self]
      trivial
    · rw [update_of_ne hne]
      exact (h.fresh t').frame rfl (fun ptr hc => hc.congr rfl rfl rfl)
        (fun _ _ _ _ hseen => ⟨hseen, rfl⟩) fun _ _ _ => rfl

theorem Inv.node (h : s.Inv free place) (hs : s.node t = some s') : s'.Inv free place := by
  unfold State.node at hs
  split at hs
  · rename_i ptr hpc
    obtain rfl := Option.some.inj hs
    have hold := h.fresh t
    rw [hpc] at hold
    obtain ⟨hpos, -, hc⟩ := hold
    exact h.move (t := t) rfl rfl rfl rfl rfl rfl (fun _ _ => rfl) (h.seen_le t) (by rw [hpc]; rfl)
      ⟨hpos, hc.congr rfl rfl rfl, fun _ => rfl⟩
  · rename_i slot ptr hpc
    obtain rfl := Option.some.inj hs
    have hold := h.fresh t
    have hplace := (h.releasing_iff t (slot - 1)).mp
    have hpos : slot ≠ 0 := by
      rintro rfl
      exact h.releasing_pos t (by rw [hpc]; rfl)
    rw [hpc] at hold hplace
    obtain ⟨-, hplace⟩ := hplace (by rw [Nat.sub_add_cancel (by omega)]; rfl)
    have hnot : slot ∉ free.map (· + 1) := by
      intro hmem
      obtain ⟨idx, hidx, rfl⟩ := List.mem_map.mp hmem
      rw [Nat.add_sub_cancel, ((h.free_iff idx).mp hidx).2] at hplace
      cases hplace
    refine h.keep rfl rfl (fun t' => ?_) (h.chain.update hnot ptr.slot) h.ver h.seen_le fun t' => ?_
    · dsimp only
      rw [releasing_update]
      split
      · rename_i heq
        rw [heq, hpc]
        rfl
      · rfl
    · show State.Fresh _ t' (update s.pc t (.releaseSwap slot ptr) t')
      rcases eq_or_ne t' t with rfl | hne
      · rw [update_self]
        exact ⟨hold.congr rfl rfl rfl, update_self _ _ _⟩
      · rw [update_of_ne hne]
        refine (h.fresh t').frame rfl (fun ptr hc => hc.congr rfl rfl rfl) ?_ ?_
        · intro ptr' next hpct hc hseen
          -- What is read is the link of the first free node.
          have hhead : 0 < ptr'.slot := by
            have hold := h.fresh t'
            rw [hpct] at hold
            exact hold.1
          refine ⟨hseen, update_of_ne ?_ _ _⟩
          rintro rfl
          have heq := hc.pointer hseen
          obtain ⟨rest, hfree, -⟩ := h.head (by rw [heq]; exact hhead)
          refine hnot (List.mem_map.mpr ⟨ptr'.slot - 1, ?_, by omega⟩)
          rw [hfree, heq]
          exact List.mem_cons_self
        · intro slot' ptr' hpct
          refine update_of_ne ?_ _ _
          rintro rfl
          have hother := (h.releasing_iff t' (slot' - 1)).mp
          rw [hpct] at hother
          have := (hother (by rw [Nat.sub_add_cancel (by omega)]; rfl)).2
          rw [hplace] at this
          exact hne (Place.releasing.inj this).symm
  · cases hs

theorem Inv.fresh_swapped (h : s.Inv free place) (hcap : s'.capacity = s.capacity)
    (hnext : s'.next = s.next) (hsw : s'.swaps = s.swaps + 1) (hseen : s'.seen = s.seen) (t : Nat) :
    s'.Fresh t (s.pc t) := by
  have hle := h.seen_le t
  refine (h.fresh t).frame hcap (fun ptr hc => hc.swapped hle hsw (by rw [hseen])) ?_ ?_
  · intro ptr next _ _ hcurrent
    rw [hseen, hsw] at hcurrent
    omega
  · intro slot ptr _
    rw [hnext]

theorem next_ver (h : s.Inv free place) : (s.pointer.ver + 1) % width = (s.swaps + 1) % width := by
  rw [h.ver, Nat.mod_add_mod]

theorem Inv.acquired (h : s.Inv free place) (hpos : 0 < s.pointer.slot)
    (hpc : (s.pc t).releasing = none) (hnext : s'.next = s.next)
    (hp : s'.pointer = ⟨s.next s.pointer.slot, (s.pointer.ver + 1) % width⟩)
    (hpc' : s'.pc = update s.pc t .idle) (hcap : s'.capacity = s.capacity)
    (hheld : s'.held = (s.pointer.slot - 1) :: s.held) (hsw : s'.swaps = s.swaps + 1)
    (hseen : s'.seen = s.seen) : ∃ free' place', s'.Inv free' place' := by
  obtain ⟨rest, hfree, hchain⟩ := h.head hpos
  generalize s.pointer.slot - 1 = i at hfree hheld
  have hnodup := h.free_nodup
  rw [hfree, List.nodup_cons] at hnodup
  have hfirst : i ∈ free := by
    rw [hfree]
    exact List.mem_cons_self
  obtain ⟨hlt, hplace⟩ := (h.free_iff _).mp hfirst
  have hnot : i ∉ s.held := by
    rw [h.held_iff, hplace]
    rintro ⟨-, hc⟩
    cases hc
  refine ⟨rest, _, h.relocate (q := .held) hlt hcap ?_ ?_ ?_ ?_ ?_ hnodup.2 ?_ ?_ ?_ ?_⟩
  · intro idx
    rw [hfree, List.mem_cons]
    split
    · rename_i heq
      subst heq
      simp [hnodup.1]
    · rename_i hne
      simp [hne]
  · intro idx
    rw [hheld, List.mem_cons]
    split
    · rename_i heq
      simp [heq]
    · rename_i hne
      simp [hne]
  · intro t' idx
    rw [hpc', releasing_update]
    have hother : ∀ t', (s.pc t').releasing ≠ some (i + 1) := by
      intro t' hrel
      have := ((h.releasing_iff t' i).mp hrel).2
      rw [hplace] at this
      cases this
    split
    · rename_i heq
      rw [heq, hpc]
      simp [Pc.releasing]
    · split
      · rename_i heq
        simp [heq, hother]
      · rfl
  · intro t'
    rw [hpc', releasing_update]
    split
    · simp [Pc.releasing]
    · exact h.releasing_pos t'
  · rw [hnext, hp]
    exact hchain
  · rw [hheld]
    exact List.nodup_cons.mpr ⟨hnot, h.held_nodup⟩
  · rw [hp, hsw]
    exact next_ver h
  · intro t'
    rw [hseen, hsw]
    exact Nat.le_succ_of_le (h.seen_le t')
  · intro t'
    rw [hpc']
    rcases eq_or_ne t' t with rfl | hne
    · rw [update_self]
      trivial
    · rw [update_of_ne hne]
      exact h.fresh_swapped hcap hnext hsw hseen t'

theorem Inv.released (h : s.Inv free place) (hpc : (s.pc t).releasing = some slot)
    (hlink : s.next slot = s.pointer.slot) (hnext : s'.next = s.next)
    (hp : s'.pointer = ⟨slot, (s.pointer.ver + 1) % width⟩)
    (hpc' : s'.pc = update s.pc t .idle) (hcap : s'.capacity = s.capacity)
    (hheld : s'.held = s.held) (hsw : s'.swaps = s.swaps + 1) (hseen : s'.seen = s.seen) :
    ∃ free' place', s'.Inv free' place' := by
  obtain ⟨i, rfl⟩ : ∃ i, slot = i + 1 := by
    refine Nat.exists_eq_succ_of_ne_zero ?_
    rintro rfl
    exact h.releasing_pos t hpc
  obtain ⟨hlt, hplace⟩ := (h.releasing_iff t i).mp hpc
  have hnot : i ∉ free := by
    rw [h.free_iff, hplace]
    rintro ⟨-, hc⟩
    cases hc
  refine ⟨i :: free, _, h.relocate (q := .free) hlt hcap ?_ ?_ ?_ ?_ ?_
    (List.nodup_cons.mpr ⟨hnot, h.free_nodup⟩) ?_ ?_ ?_ ?_⟩
  · intro idx
    rw [List.mem_cons]
    split
    · rename_i heq
      simp [heq]
    · rename_i hne
      simp [hne]
  · intro idx
    rw [hheld]
    split
    · rename_i heq
      simp [heq, h.held_iff, hplace]
    · rfl
  · intro t' idx
    rw [hpc', releasing_update]
    split
    · rename_i heq
      rw [heq, hpc]
      split
      · simp [Pc.releasing]
      · rename_i hne
        simp [Pc.releasing, Ne.symm hne]
    · rename_i hne
      split
      · rename_i heq
        rw [heq, h.releasing_iff, hplace]
        simp [Ne.symm hne]
      · rfl
  · intro t'
    rw [hpc', releasing_update]
    split
    · simp [Pc.releasing]
    · exact h.releasing_pos t'
  · rw [hnext, hp]
    refine ⟨rfl, Nat.succ_ne_zero i, ?_⟩
    rw [hlink]
    exact h.chain
  · rw [hheld]
    exact h.held_nodup
  · rw [hp, hsw]
    exact next_ver h
  · intro t'
    rw [hseen, hsw]
    exact Nat.le_succ_of_le (h.seen_le t')
  · intro t'
    rw [hpc']
    rcases eq_or_ne t' t with rfl | hne
    · rw [update_self]
      trivial
    · rw [update_of_ne hne]
      exact h.fresh_swapped hcap hnext hsw hseen t'

theorem Inv.swap (h : s.Inv free place) {spurious : Bool} (hs : s.swap t spurious = some s')
    (hwrap : s.swaps - s.seen t < width) : ∃ free' place', s'.Inv free' place' := by
  have hold := h.fresh t
  unfold State.swap at hs
  split at hs
  · rename_i ptr next hpc
    rw [hpc] at hold
    obtain ⟨hpos, hc, hnext⟩ := hold
    split at hs
    · rename_i hswap
      obtain rfl := hswap.2
      obtain rfl := hnext (h.seen_eq hc rfl hwrap)
      obtain rfl := Option.some.inj hs
      exact h.acquired (t := t) hpos (by rw [hpc]; rfl) rfl rfl rfl rfl rfl rfl rfl
    · obtain rfl := Option.some.inj hs
      exact ⟨free, place, h.move (t := t) rfl rfl rfl rfl rfl rfl (fun _ _ => rfl) (h.seen_le t)
        (by rw [hpc]; rfl) trivial⟩
  · rename_i slot ptr hpc
    rw [hpc] at hold
    obtain ⟨-, hlink⟩ := hold
    split at hs
    · rename_i hswap
      obtain rfl := hswap.2
      obtain rfl := Option.some.inj hs
      exact h.released (t := t) (by rw [hpc]; rfl) hlink rfl rfl rfl rfl rfl rfl rfl
    · obtain rfl := Option.some.inj hs
      exact ⟨free, place, h.move (t := t) rfl rfl rfl rfl rfl rfl (fun _ _ => rfl) (h.seen_le t)
        (by rw [hpc]; rfl) trivial⟩
  · cases hs

theorem Inv.step (h : s.Inv free place) {e : Event} (hs : s.step e = some s') (hwrap : NoWrap s e) :
    ∃ free' place', s'.Inv free' place' := by
  cases e with
  | callAcquire t => exact ⟨free, place, h.callAcquire hs⟩
  | callRelease t idx =>
    obtain ⟨place', h'⟩ := h.callRelease hs
    exact ⟨free, place', h'⟩
  | load t => exact ⟨free, place, h.load hs⟩
  | node t => exact ⟨free, place, h.node hs⟩
  | swap t spurious => exact h.swap hs hwrap

theorem Inv.npos_of_step (h : s.Inv free place) {e : Event} (hs : s.step e = some s')
    (hnone : s.returned t = none) (hret : s'.returned t = some npos) : e = .load t ∧ free = [] := by
  have hsame : s'.returned ≠ s.returned := by
    intro heq
    rw [heq, hnone] at hret
    cases hret
  -- Only the call that returns changes what is returned.
  have hself : ∀ u r, s'.returned = update s.returned u r → t = u ∧ r = some npos := by
    intro u r heq
    rw [heq] at hret
    rcases eq_or_ne t u with rfl | hne
    · rw [update_self] at hret
      exact ⟨rfl, hret⟩
    · rw [update_of_ne hne, hnone] at hret
      cases hret
  cases e with
  | callAcquire u =>
    change s.callAcquire u = some s' at hs
    unfold State.callAcquire at hs
    split at hs
    · obtain rfl := Option.some.inj hs
      cases (hself u none rfl).2
    · cases hs
  | callRelease u idx =>
    change s.callRelease u idx = some s' at hs
    unfold State.callRelease at hs
    split at hs
    · split_ifs at hs
      · obtain rfl := Option.some.inj hs
        exact absurd rfl hsame
      · obtain rfl := Option.some.inj hs
        exact absurd rfl hsame
    · cases hs
  | load u =>
    change s.load u = some s' at hs
    unfold State.load at hs
    split at hs
    · split_ifs at hs with hslot
      · obtain rfl := Option.some.inj hs
        obtain ⟨rfl, -⟩ := hself u (some npos) rfl
        exact ⟨rfl, h.free_nil hslot⟩
      · obtain rfl := Option.some.inj hs
        exact absurd rfl hsame
    · obtain rfl := Option.some.inj hs
      exact absurd rfl hsame
    · cases hs
  | node u =>
    change s.node u = some s' at hs
    unfold State.node at hs
    split at hs
    · obtain rfl := Option.some.inj hs
      exact absurd rfl hsame
    · obtain rfl := Option.some.inj hs
      exact absurd rfl hsame
    · cases hs
  | swap u spurious =>
    change s.swap u spurious = some s' at hs
    unfold State.swap at hs
    split at hs
    · rename_i ptr next hpc
      split_ifs at hs with hswap
      · obtain rfl := Option.some.inj hs
        obtain ⟨-, hidx⟩ := hself u (some (ptr.slot - 1)) rfl
        have hold := h.fresh u
        rw [hpc] at hold
        obtain rfl := hswap.2
        have hle := h.head_le hold.1
        have hcap := h.capacity
        have hidx := Option.some.inj hidx
        unfold npos at hidx
        omega
      · obtain rfl := Option.some.inj hs
        exact absurd rfl hsame
    · split_ifs at hs
      · obtain rfl := Option.some.inj hs
        exact absurd rfl hsame
      · obtain rfl := Option.some.inj hs
        exact absurd rfl hsame
    · cases hs

/-- **The invariant says that the books are exact.** -/
theorem Inv.exact (h : s.Inv free place) : s.Exact := by
  refine ⟨free, h.chain, h.free_nodup, h.held_nodup, fun idx => ⟨fun hlt => ?_, ?_⟩, ?_, ?_, ?_, ?_,
    fun e s' t hs hnone hret => h.npos_of_step hs hnone hret⟩
  · rcases hplace : place idx with _ | _ | t
    · exact .inl ((h.free_iff idx).mpr ⟨hlt, hplace⟩)
    · exact .inr (.inl ((h.held_iff idx).mpr ⟨hlt, hplace⟩))
    · exact .inr (.inr ⟨t, (h.releasing_iff t idx).mpr ⟨hlt, hplace⟩⟩)
  · rintro (hfree | hheld | ⟨t, hrel⟩)
    · exact ((h.free_iff idx).mp hfree).1
    · exact ((h.held_iff idx).mp hheld).1
    · exact ((h.releasing_iff t idx).mp hrel).1
  · intro idx hfree hheld
    have hplace := ((h.free_iff idx).mp hfree).2
    rw [((h.held_iff idx).mp hheld).2] at hplace
    cases hplace
  · intro t idx hrel
    have hplace := ((h.releasing_iff t idx).mp hrel).2
    constructor
    · intro hfree
      rw [((h.free_iff idx).mp hfree).2] at hplace
      cases hplace
    · intro hheld
      rw [((h.held_iff idx).mp hheld).2] at hplace
      cases hplace
  · intro t t' slot hrel hrel'
    obtain ⟨idx, rfl⟩ : ∃ idx, slot = idx + 1 := by
      refine Nat.exists_eq_succ_of_ne_zero ?_
      rintro rfl
      exact h.releasing_pos t hrel
    have hplace := ((h.releasing_iff t idx).mp hrel).2
    rw [((h.releasing_iff t' idx).mp hrel').2] at hplace
    exact (Place.releasing.inj hplace).symm
  · intro t slot hnode
    have hold := h.fresh t
    cases hpc : s.pc t with
    | acquireNext ptr =>
      rw [hpc] at hnode hold
      obtain rfl := Option.some.inj hnode
      exact hold.2.1
    | releaseNext slot' ptr =>
      rw [hpc] at hnode
      obtain rfl := Option.some.inj hnode
      by_contra hlt
      have hrel : (s.pc t).releasing = some (slot' - 1 + 1) := by
        rw [hpc, Nat.sub_add_cancel (by omega)]
        rfl
      have := ((h.releasing_iff t (slot' - 1)).mp hrel).1
      omega
    | _ => rw [hpc] at hnode; cases hnode

end State

/-! ## Setup -/

theorem chain_setup (capacity : Nat) : ∀ k m, m + (k + 1) = capacity →
    Chain (fun slot => if 1 ≤ slot ∧ slot < capacity then slot + 1 else 0) 0 (m + 1)
      ((List.range' m (k + 1)).map (· + 1)) := by
  intro k
  induction k with
  | zero =>
    intro m hm
    refine ⟨rfl, Nat.succ_ne_zero m, ?_⟩
    show (if 1 ≤ m + 1 ∧ m + 1 < capacity then m + 1 + 1 else 0) = 0
    rw [if_neg (by omega)]
  | succ k ih =>
    intro m hm
    rw [List.range'_succ, List.map_cons]
    refine ⟨rfl, Nat.succ_ne_zero m, ?_⟩
    dsimp only
    rw [if_pos (by omega)]
    exact ih (m + 1) (by omega)

theorem inv_setup {capacity : Nat} (hpos : 1 ≤ capacity) (hcap : capacity + 1 < width)
    (h : setup capacity = some s) : s.Inv (List.range capacity) fun _ => .free := by
  unfold setup at h
  rw [Nat.mod_eq_of_lt hcap, if_neg (by omega)] at h
  obtain rfl := Option.some.inj h
  refine ⟨?_, List.nodup_range, List.nodup_nil, ?_, ?_, ?_, ?_, rfl, fun _ => Nat.le_refl 0,
    fun _ => trivial, hcap⟩
  · obtain ⟨k, rfl⟩ : ∃ k, capacity = k + 1 := Nat.exists_eq_succ_of_ne_zero (by omega)
    rw [List.range_eq_range']
    exact chain_setup (k + 1) k 0 (by omega)
  · simp
  · simp
  · simp [Pc.releasing]
  · simp [Pc.releasing]

/-- **The index pool hands out every index at most once**, for every capacity that leaves room for the end
of the list: in any interleaving the books are exact. Otherwise `Setup` writes past the end of the nodes. -/
theorem index_pool_exact (capacity : Nat) (hpos : 1 ≤ capacity) (hindex : capacity < width) :
    (∃ start, setup capacity = some start ∧
      ∀ s, (machine capacity).Reach NoWrap s → s.Exact) ↔ capacity + 1 < width := by
  constructor
  · rintro ⟨start, hstart, -⟩
    by_contra hcap
    have heq : capacity + 1 = width := by omega
    unfold setup at hstart
    rw [heq, Nat.mod_self, if_pos (Nat.zero_le _)] at hstart
    cases hstart
  · intro hcap
    have hsome : ∃ start, setup capacity = some start := by
      unfold setup
      rw [Nat.mod_eq_of_lt hcap, if_neg (by omega)]
      exact ⟨_, rfl⟩
    obtain ⟨start, hstart⟩ := hsome
    refine ⟨start, hstart, fun s hs => ?_⟩
    obtain ⟨free, place, h⟩ : ∃ free place, s.Inv free place := by
      refine hs.inv (I := fun s => ∃ free place, s.Inv free place) ?_ ?_
      · intro s hinit
        exact ⟨_, _, inv_setup hpos hcap hinit⟩
      · rintro s e s' ⟨free, place, h⟩ hwrap hstep
        exact h.step hstep hwrap
    exact h.exact

instance (s : State) (e : Event) : Decidable (NoWrap s e) :=
  match e with
  | .swap t _ => inferInstanceAs (Decidable (s.swaps - s.seen t < width))
  | .callAcquire _ | .callRelease _ _ | .load _ | .node _ => .isTrue trivial

/-- A thread reads the link of the head. Another one acquires the index, and then the next one, and
releases the first one again before the swap. -/
def abaTrace : List Event :=
  [.callAcquire 0, .load 0, .node 0, .callAcquire 1, .load 1, .node 1, .swap 1 false, .callAcquire 1,
    .load 1, .node 1, .swap 1 false, .callRelease 1 0, .load 1, .node 1, .swap 1 false, .swap 0 false]

/-- The swap fails, since the version has changed. -/
theorem index_pool_exact_four : ∃ s, (machine 4).Reach NoWrap s ∧ s.pointer.slot = 1 ∧ s.pc 0 = .acquire ∧
    s.held = [1] ∧ s.Exact := by
  obtain ⟨start, hstart, hexact⟩ := (index_pool_exact 4 (by decide) (by decide)).mpr (by decide)
  have h0 : (machine 4).init ((setup 4).get (by decide)) := (Option.some_get _).symm
  obtain ⟨s, hreach, hp⟩ := Machine.exists_reach_of_run (C := NoWrap) (l := abaTrace)
    (p := fun s => s.pointer.slot = 1 ∧ s.pc 0 = .acquire ∧ s.held = [1]) h0 (by decide +kernel)
  obtain ⟨hslot, hpc, hheld⟩ := hp
  exact ⟨s, hreach, hslot, hpc, hheld, hexact s hreach⟩

/-- The largest capacity. -/
theorem index_pool_overflow : setup npos = none ∧
    ¬ ∃ start, setup npos = some start ∧ ∀ s, (machine npos).Reach NoWrap s → s.Exact := by
  have hnone : setup npos = none := by
    unfold setup
    exact if_pos (by decide)
  refine ⟨hnone, ?_⟩
  rintro ⟨start, hstart, -⟩
  rw [hnone] at hstart
  cases hstart

end UnifiedCache.Infra.IndexPool
