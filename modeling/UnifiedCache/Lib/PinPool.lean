import Mathlib.Algebra.Order.Group.Multiset
import Mathlib.Tactic.Common

/-!
# Pools of pinned slots

The abstract view of a buffer cache: a family of slots, each holding at most one key, a count of the
references that pin it and a flag that says its contents are complete. `Pool.Get` is a lookup that
pins: a hit adds a reference, a miss takes any unpinned slot over for the key. A slot is never taken
over while it is pinned.
-/

namespace Lib

variable {K : Type*}

@[ext] structure Slot (K : Type*) where
  /-- The key the slot holds. -/
  key : Option K
  /-- The number of references that pin the slot. -/
  reference : Nat
  /-- The contents are complete. -/
  ready : Bool

/-- A pool: the slots by index. -/
abbrev Pool (K : Type*) := Nat → Slot K

namespace Pool

variable {P P' : Pool K} {k : K} {o : Option (Nat × Bool)} {i j : Nat}

/-- One more reference on slot `i`. -/
def pin (P : Pool K) (i : Nat) : Pool K :=
  Function.update P i { P i with reference := (P i).reference + 1 }

/-- One reference less on slot `i`. -/
def unpin (P : Pool K) (i : Nat) : Pool K :=
  Function.update P i { P i with reference := (P i).reference - 1 }

/-- The contents of slot `i` are complete. -/
def complete (P : Pool K) (i : Nat) : Pool K :=
  Function.update P i { P i with ready := true }

/-- Slot `i` is taken over for key `k` and pinned once. -/
def take (P : Pool K) (i : Nat) (k : K) : Pool K :=
  Function.update P i { key := some k, reference := 1, ready := false }

/-- Getting key `k`: the slot and whether the caller is its first user, or `none` while the search
for a slot goes on. -/
inductive Get (P : Pool K) (k : K) : Option (Nat × Bool) → Pool K → Prop where
  /-- The key is in slot `i`. -/
  | hit (i : Nat) (hk : (P i).key = some k) : Get P k (some (i, (P i).reference == 0)) (P.pin i)
  /-- The key is in no slot, and the unpinned slot `i` is taken over. -/
  | steal (i : Nat) (hmiss : ∀ j, (P j).key ≠ some k) (hfree : (P i).reference = 0) :
      Get P k (some (i, true)) (P.take i k)
  /-- The key is in no slot, and no slot has been taken over yet. -/
  | search (hmiss : ∀ j, (P j).key ≠ some k) : Get P k none P

@[simp] theorem pin_self : P.pin i i = { P i with reference := (P i).reference + 1 } := by
  simp [pin]

theorem pin_ne (h : j ≠ i) : P.pin i j = P j := by simp [pin, h]

@[simp] theorem unpin_self : P.unpin i i = { P i with reference := (P i).reference - 1 } := by
  simp [unpin]

theorem unpin_ne (h : j ≠ i) : P.unpin i j = P j := by simp [unpin, h]

@[simp] theorem complete_self : P.complete i i = { P i with ready := true } := by simp [complete]

theorem complete_ne (h : j ≠ i) : P.complete i j = P j := by simp [complete, h]

@[simp] theorem take_self : P.take i k i = { key := some k, reference := 1, ready := false } := by
  simp [take]

theorem take_ne (h : j ≠ i) : P.take i k j = P j := by simp [take, h]

theorem pin_key : (P.pin i j).key = (P j).key := by
  by_cases h : j = i
  · subst h; simp
  · rw [pin_ne h]

theorem unpin_key : (P.unpin i j).key = (P j).key := by
  by_cases h : j = i
  · subst h; simp
  · rw [unpin_ne h]

theorem complete_key : (P.complete i j).key = (P j).key := by
  by_cases h : j = i
  · subst h; simp
  · rw [complete_ne h]

theorem pin_ready : (P.pin i j).ready = (P j).ready := by
  by_cases h : j = i
  · subst h; simp
  · rw [pin_ne h]

theorem unpin_ready : (P.unpin i j).ready = (P j).ready := by
  by_cases h : j = i
  · subst h; simp
  · rw [unpin_ne h]

theorem complete_reference : (P.complete i j).reference = (P j).reference := by
  by_cases h : j = i
  · subst h; simp
  · rw [complete_ne h]

/-- **A pinned slot keeps its key**, whatever anybody gets. -/
theorem Get.key_eq (h : P.Get k o P') (hj : 0 < (P j).reference) : (P' j).key = (P j).key := by
  cases h with
  | hit i hk => exact pin_key
  | steal i hmiss hfree =>
    have hji : j ≠ i := fun e => by subst e; omega
    rw [take_ne hji]
  | search hmiss => rfl

theorem Get.ready_eq (h : P.Get k o P') (hj : 0 < (P j).reference) :
    (P' j).ready = (P j).ready := by
  cases h with
  | hit i hk => exact pin_ready
  | steal i hmiss hfree =>
    have hji : j ≠ i := fun e => by subst e; omega
    rw [take_ne hji]
  | search hmiss => rfl

theorem Get.reference_eq (h : P.Get k o P') (j : Nat) :
    (P' j).reference = (P j).reference + (if o.map Prod.fst = some j then 1 else 0) := by
  cases h with
  | hit i hk =>
    by_cases hji : j = i
    · subst hji; simp
    · simp [pin_ne hji, Ne.symm hji]
  | steal i hmiss hfree =>
    by_cases hji : j = i
    · subst hji; simp [hfree]
    · simp [take_ne hji, Ne.symm hji]
  | search hmiss => simp

theorem Get.key_self {owner : Bool} (h : P.Get k (some (i, owner)) P') : (P' i).key = some k := by
  cases h with
  | hit _ hk => rw [pin_key, hk]
  | steal _ hmiss hfree => simp

theorem Get.key_cases {k' : K} (h : P.Get k o P') (hj : (P' j).key = some k') :
    (P j).key = some k' ∧ (P' j).ready = (P j).ready ∨
      (k' = k ∧ o = some (j, true) ∧ (P' j).ready = false ∧ (P j).reference = 0) := by
  cases h with
  | hit i hk => exact .inl ⟨by rw [← hj, pin_key], pin_ready⟩
  | steal i hmiss hfree =>
    by_cases hji : j = i
    · subst hji
      rw [take_self] at hj
      exact .inr ⟨(Option.some.inj hj).symm, rfl, by simp, hfree⟩
    · rw [take_ne hji] at hj ⊢
      exact .inl ⟨hj, rfl⟩
  | search hmiss => exact .inl ⟨hj, rfl⟩

theorem Get.owner_iff {owner : Bool} (h : P.Get k (some (i, owner)) P') :
    owner = true ↔ (P i).reference = 0 := by
  cases h with
  | hit _ hk => simp
  | steal _ hmiss hfree => simp [hfree]

theorem Get.hit_of_not_owner (h : P.Get k (some (i, false)) P') :
    (P i).key = some k ∧ 0 < (P i).reference := by
  have ho := h.owner_iff
  generalize hb : false = b at h
  cases h with
  | hit _ hk => exact ⟨hk, Nat.pos_of_ne_zero fun hr => by simp [hr] at hb⟩
  | steal => cases hb

theorem Get.ready_of_ready (h : P.Get k o P') (hj : (P' j).ready = true) : (P j).ready = true := by
  cases h with
  | hit i hk => exact pin_ready.symm.trans hj
  | steal i hmiss hfree =>
    by_cases hji : j = i
    · rw [hji, take_self] at hj
      cases hj
    · rwa [take_ne hji] at hj
  | search hmiss => exact hj

/-! ## Pins -/

/-- What a step never does to a pinned slot: change its key, or take its contents away. -/
def Keeps (P P' : Pool K) : Prop :=
  ∀ j, 0 < (P j).reference → (P' j).key = (P j).key ∧ ((P j).ready = true → (P' j).ready = true)

theorem Keeps.refl (P : Pool K) : P.Keeps P := fun _ _ => ⟨rfl, id⟩

theorem Get.keeps (h : P.Get k o P') : P.Keeps P' :=
  fun _ hj => ⟨h.key_eq hj, fun hr => (h.ready_eq hj).trans hr⟩

theorem keeps_unpin (P : Pool K) (i : Nat) : P.Keeps (P.unpin i) :=
  fun _ _ => ⟨unpin_key, fun hr => unpin_ready.trans hr⟩

theorem ready_complete (hr : (P j).ready = true) : (P.complete i j).ready = true := by
  by_cases h : j = i
  · subst h; simp
  · rw [complete_ne h]; exact hr

theorem keeps_complete (P : Pool K) (i : Nat) : P.Keeps (P.complete i) :=
  fun _ _ => ⟨complete_key, ready_complete⟩

variable {R : Type*} {key : R → Option K} {A B : Multiset (Nat × R)} {x : Nat × R}

/-- The pins `A` are the references of the pool, and a pin whose role knows a key is on a slot that
holds it. -/
structure Pinned (key : R → Option K) (P : Pool K) (A : Multiset (Nat × R)) : Prop where
  count : ∀ i, (P i).reference = (A.map Prod.fst).count i
  key_eq : ∀ x ∈ A, ∀ k, key x.2 = some k → (P x.1).key = some k

/-- A change of roles: the pins stay where they are and learn no key. -/
abbrev Retag (key : R → Option K) (x y : Nat × R) : Prop :=
  x.1 = y.1 ∧ ∀ k, key y.2 = some k → key x.2 = some k

theorem Pinned.reference_pos (h : Pinned key P A) (hx : x ∈ A) : 0 < (P x.1).reference := by
  rw [h.count, Multiset.count_pos]
  exact Multiset.mem_map_of_mem _ hx

theorem Pinned.get {r : R} {owner : Bool} (h : Pinned key P A)
    (hg : P.Get k (some (i, owner)) P') (hr : key r = none ∨ key r = some k) :
    Pinned key P' ({(i, r)} + A) := by
  refine ⟨fun j => ?_, fun x hx k' hk' => ?_⟩
  · have hj := hg.reference_eq j
    rw [h.count] at hj
    rw [hj, Multiset.map_add, Multiset.count_add, Multiset.map_singleton, add_comm,
      Multiset.count_singleton]
    congr 1
    simp [eq_comm]
  · rcases Multiset.mem_add.mp hx with hx | hx
    · rw [Multiset.mem_singleton] at hx
      subst hx
      rcases hr with hr | hr
      · rw [hr] at hk'
        cases hk'
      · rw [hr] at hk'
        cases hk'
        exact hg.key_self
    · rw [(hg.keeps _ (h.reference_pos hx)).1]
      exact h.key_eq x hx k' hk'

theorem Pinned.search (h : Pinned key P A) (hg : P.Get k none P') : Pinned key P' A := by
  cases hg
  exact h

theorem Pinned.unpin (h : Pinned key P ({x} + A)) : Pinned key (P.unpin x.1) A := by
  refine ⟨fun j => ?_, fun y hy k hk => ?_⟩
  · have hj := h.count j
    rw [Multiset.map_add, Multiset.count_add, Multiset.map_singleton,
      Multiset.count_singleton] at hj
    by_cases hjx : j = x.1
    · subst hjx
      simp only [unpin_self, if_true] at hj ⊢
      omega
    · rw [unpin_ne hjx, hj, if_neg hjx]
      omega
  · rw [unpin_key]
    exact h.key_eq y (Multiset.mem_add.mpr (.inr hy)) k hk

theorem Pinned.complete (h : Pinned key P A) (i : Nat) : Pinned key (P.complete i) A :=
  ⟨fun j => by rw [complete_reference]; exact h.count j,
    fun x hx k hk => by rw [complete_key]; exact h.key_eq x hx k hk⟩

theorem Pinned.retag (h : Pinned key P A) (hr : Multiset.Rel (Retag key) A B) :
    Pinned key P B := by
  have hfst : A.map Prod.fst = B.map Prod.fst := by
    rw [← Multiset.rel_eq, Multiset.rel_map]
    exact hr.mono fun x _ y _ hxy => hxy.1
  refine ⟨fun j => by rw [h.count, hfst], fun y hy k hk => ?_⟩
  obtain ⟨x, hx, hxy⟩ := Multiset.exists_mem_of_rel_of_mem (Multiset.rel_flip.mpr hr) hy
  rw [← hxy.1]
  exact h.key_eq x hx k (hxy.2 k hk)

end Pool

end Lib
