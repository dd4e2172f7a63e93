import Mathlib.Data.List.Nodup
import Mathlib.Data.List.Sort
import Mathlib.Data.Prod.Lex

/-!
# Partial sorting

Sorting the first `k` elements of an array brings the smallest ones to the front, in order. How the others
lie afterwards is left open, and so is which of equal elements are among the first.
-/

namespace Lib.PartialSort

variable {α β : Type*} {l r : List α} {k : Nat}

/-- The array after its first `k` elements have been sorted by a strict comparison. -/
structure PartialSorted (lt : α → α → Bool) (l : List α) (k : Nat) (r : List α) : Prop where
  perm : r.Perm l
  sorted : (r.take k).Pairwise fun x y => lt y x = false
  best : ∀ x ∈ r.take k, ∀ y ∈ r.drop k, lt y x = false

instance [DecidableEq α] (lt : α → α → Bool) (l : List α) (k : Nat) (r : List α) :
    Decidable (PartialSorted lt l k r) :=
  decidable_of_iff
    (r.Perm l ∧ (r.take k).Pairwise (fun x y => lt y x = false) ∧
      ∀ x ∈ r.take k, ∀ y ∈ r.drop k, lt y x = false)
    ⟨fun h => ⟨h.1, h.2.1, h.2.2⟩, fun h => ⟨h.perm, h.sorted, h.best⟩⟩

namespace PartialSorted

theorem length_take {lt : α → α → Bool} (h : PartialSorted lt l k r) :
    (r.take k).length = min k l.length := by
  rw [List.length_take, h.perm.length_eq]

theorem map {lt : α → α → Bool} {lt' : β → β → Bool} {f : α → β} (h : PartialSorted lt l k r)
    (hlt : ∀ x ∈ l, ∀ y ∈ l, lt y x = false → lt' (f y) (f x) = false) :
    PartialSorted lt' (l.map f) k (r.map f) := by
  have hmem : ∀ x ∈ r, x ∈ l := fun x hx => h.perm.mem_iff.mp hx
  refine ⟨h.perm.map f, ?_, ?_⟩
  · rw [← List.map_take, List.pairwise_map]
    refine h.sorted.imp_of_mem fun {x y} hx hy hxy => ?_
    exact hlt x (hmem x (List.mem_of_mem_take hx)) y (hmem y (List.mem_of_mem_take hy)) hxy
  · rw [← List.map_take, ← List.map_drop]
    intro x' hx' y' hy'
    obtain ⟨x, hx, rfl⟩ := List.mem_map.mp hx'
    obtain ⟨y, hy, rfl⟩ := List.mem_map.mp hy'
    exact hlt x (hmem x (List.mem_of_mem_take hx)) y (hmem y (List.mem_of_mem_drop hy))
      (h.best x hx y hy)

end PartialSorted

/-! ## By a key -/

section Key

variable [LinearOrder β] {f : α → β}

/-- Comparing keys. -/
def byKey (f : α → β) (x y : α) : Bool := f x < f y

theorem byKey_eq_false {x y : α} : byKey f y x = false ↔ f x ≤ f y := by
  rw [byKey, decide_eq_false_iff_not, not_lt]

theorem exists_partialSorted (f : α → β) (l : List α) (k : Nat) :
    ∃ r, PartialSorted (byKey f) l k r := by
  have : IsTrans α fun x y => f x ≤ f y := ⟨fun _ _ _ => le_trans⟩
  have : Std.Total fun x y : α => f x ≤ f y := ⟨fun x y => le_total (f x) (f y)⟩
  have hsorted := List.pairwise_insertionSort (fun x y => f x ≤ f y) l
  refine ⟨l.insertionSort fun x y => f x ≤ f y, List.perm_insertionSort _ _, ?_, ?_⟩
  · refine (hsorted.sublist (List.take_sublist k _)).imp fun hxy => byKey_eq_false.mpr hxy
  · rw [← List.take_append_drop k (l.insertionSort fun x y => f x ≤ f y)] at hsorted
    intro x hx y hy
    exact byKey_eq_false.mpr ((List.pairwise_append.mp hsorted).2.2 x hx y hy)

theorem PartialSorted.of_finer {γ : Type*} [LinearOrder γ] {g : α → γ}
    (h : PartialSorted (byKey g) l k r) (hfg : ∀ x y, g x ≤ g y → f x ≤ f y) :
    PartialSorted (byKey f) l k r where
  perm := h.perm
  sorted := h.sorted.imp fun hxy => byKey_eq_false.mpr (hfg _ _ (byKey_eq_false.mp hxy))
  best x hx y hy := byKey_eq_false.mpr (hfg _ _ (byKey_eq_false.mp (h.best x hx y hy)))

/-! ## Repeated elements -/

variable [DecidableEq α]

/-- Of an element that occurs more than once no two are among the first `k`: all but one of them are taken
by smaller ones. -/
def Spread (f : α → β) (l : List α) (k : Nat) : Prop :=
  ∀ x ∈ l, 2 ≤ l.count x → k ≤ (l.countP fun y => f y < f x) + 1

instance (f : α → β) (l : List α) (k : Nat) : Decidable (Spread f l k) :=
  inferInstanceAs (Decidable (∀ x ∈ l, _))

theorem spread_of_nodup (h : l.Nodup) : Spread f l k := by
  intro x _ htwice
  have hone := List.nodup_iff_count_le_one.mp h x
  omega

theorem countP_add_count_le (p : α → Bool) (x : α) (hx : p x = false) (l : List α) :
    l.countP p + l.count x ≤ l.length := by
  induction l with
  | nil => exact Nat.le_refl 0
  | cons y l ih =>
    rw [List.countP_cons, List.count_cons, List.length_cons]
    by_cases hy : y = x
    · subst hy
      rw [hx]
      simp only [beq_self_eq_true, if_true, Bool.false_eq_true, if_false]
      omega
    · rw [beq_eq_false_iff_ne.mpr hy]
      simp only [Bool.false_eq_true, if_false]
      split_ifs
      · omega
      · omega

/-- **The first elements are different ones**, if repeated ones are spread. -/
theorem PartialSorted.nodup_take (h : PartialSorted (byKey f) l k r) (hspread : Spread f l k) :
    (r.take k).Nodup := by
  rw [List.nodup_iff_count_le_one]
  intro x
  by_contra htwice
  have hx : x ∈ r.take k := List.count_pos_iff.mp (by omega)
  have hcount : l.count x = (r.take k).count x + (r.drop k).count x := by
    rw [← List.count_append, List.take_append_drop, h.perm.count_eq]
  have hless : l.countP (fun y => f y < f x) = (r.take k).countP fun y => f y < f x := by
    have hnone : (r.drop k).countP (fun y => f y < f x) = 0 := by
      rw [List.countP_eq_zero]
      intro y hy
      rw [decide_eq_true_iff, not_lt]
      exact byKey_eq_false.mp (h.best x hx y hy)
    rw [← h.perm.countP_eq, ← List.take_append_drop k r, List.countP_append, List.take_append_drop, hnone,
      Nat.add_zero]
  have hsmall := hspread x (h.perm.mem_iff.mp (List.mem_of_mem_take hx)) (by omega)
  have hroom := countP_add_count_le (fun y => f y < f x) x (by simp) (r.take k)
  have hlen := List.length_take_le k r
  omega

/-- **Otherwise they need not be.** -/
theorem exists_not_nodup_take (hspread : ¬Spread f l k) (hk : k ≤ l.length) :
    ∃ r, PartialSorted (byKey f) l k r ∧ ¬(r.take k).Nodup := by
  unfold Spread at hspread
  push Not at hspread
  obtain ⟨x, -, htwice, hroom⟩ := hspread
  -- of equal elements the repeated one comes first
  let g : α → β ×ₗ Nat := fun y => toLex (f y, if y = x then 0 else 1)
  obtain ⟨r, hr⟩ := exists_partialSorted g l k
  refine ⟨r, hr.of_finer fun y z hyz => ?_, fun hnodup => ?_⟩
  · rcases (Prod.Lex.le_iff).mp hyz with hlt | ⟨heq, -⟩
    · exact hlt.le
    · exact heq.le
  · have hone := List.nodup_iff_count_le_one.mp hnodup x
    have hcount : l.count x = (r.take k).count x + (r.drop k).count x := by
      rw [← List.count_append, List.take_append_drop, hr.perm.count_eq]
    have hx : x ∈ r.drop k := List.count_pos_iff.mp (by omega)
    -- what is before it is smaller, or the element itself
    have hfront : ∀ y ∈ r.take k, f y < f x ∨ y = x := by
      intro y hy
      by_cases hyx : y = x
      · exact .inr hyx
      · have hle := byKey_eq_false.mp (hr.best y hy x hx)
        rcases (Prod.Lex.le_iff).mp hle with hlt | ⟨-, hle⟩
        · exact .inl hlt
        · simp [g, hyx] at hle
    have hlen : (r.take k).length ≤ (r.take k).countP (fun y => f y < f x) + (r.take k).count x := by
      clear hone hnodup hcount
      generalize r.take k = front at hfront
      induction front with
      | nil => exact Nat.zero_le _
      | cons y front ih =>
        have ih := ih fun z hz => hfront z (List.mem_cons_of_mem _ hz)
        rw [List.countP_cons, List.count_cons, List.length_cons]
        rcases hfront y List.mem_cons_self with hlt | rfl
        · rw [if_pos (decide_eq_true hlt)]
          omega
        · simp only [beq_self_eq_true, if_true]
          omega
    have hle : (r.take k).countP (fun y => f y < f x) ≤ l.countP fun y => f y < f x := by
      rw [← hr.perm.countP_eq]
      exact (List.take_sublist k r).countP_le
    have hfull := hr.length_take
    omega

end Key

end Lib.PartialSort
