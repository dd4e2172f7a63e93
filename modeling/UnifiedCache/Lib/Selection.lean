import Mathlib.Data.List.Nodup
import Mathlib.Data.List.Perm.Subperm
import Mathlib.Data.List.Sort
import Mathlib.Data.Prod.Lex

/-!
# Selecting the smallest

Some `k` smallest of `n` values in a linear order. Which ones is settled by the values up to ties: how
many values are below or at a bound says whether one at the bound must, may or need not be selected.
-/

namespace Lib.Selection

variable {β : Type*} [LinearOrder β] {f : Nat → β} {n k : Nat} {sel : List Nat}

/-- The places of some `k` smallest of `f 0`, …, `f (n - 1)`. -/
structure Smallest (f : Nat → β) (n k : Nat) (sel : List Nat) : Prop where
  length : sel.length = k
  nodup : sel.Nodup
  lt : ∀ i ∈ sel, i < n
  least : ∀ i ∈ sel, ∀ j < n, j ∉ sel → f i ≤ f j

instance (f : Nat → β) (n k : Nat) (sel : List Nat) : Decidable (Smallest f n k sel) :=
  decidable_of_iff
    (sel.length = k ∧ sel.Nodup ∧ (∀ i ∈ sel, i < n) ∧ ∀ i ∈ sel, ∀ j < n, j ∉ sel → f i ≤ f j)
    ⟨fun h => ⟨h.1, h.2.1, h.2.2.1, h.2.2.2⟩, fun h => ⟨h.length, h.nodup, h.lt, h.least⟩⟩

/-- The places of the `k` smallest values, found by sorting. -/
def smallest (f : Nat → β) (n k : Nat) : List Nat :=
  ((List.range n).insertionSort fun i j => f i ≤ f j).take k

theorem smallest_spec (f : Nat → β) (h : k ≤ n) : Smallest f n k (smallest f n k) := by
  have hperm : ((List.range n).insertionSort fun i j => f i ≤ f j).Perm (List.range n) :=
    List.perm_insertionSort _ _
  have hsorted : ((List.range n).insertionSort fun i j => f i ≤ f j).Pairwise
      fun i j => f i ≤ f j := by
    have : IsTrans Nat fun i j => f i ≤ f j := ⟨fun _ _ _ => le_trans⟩
    have : Std.Total fun i j : Nat => f i ≤ f j := ⟨fun i j => le_total (f i) (f j)⟩
    exact List.pairwise_insertionSort _ _
  unfold smallest
  generalize (List.range n).insertionSort (fun i j => f i ≤ f j) = l at hperm hsorted ⊢
  have hnodup : l.Nodup := hperm.nodup_iff.mpr List.nodup_range
  refine ⟨?_, hnodup.sublist (List.take_sublist k l), fun i hi => ?_, fun i hi j hj hnot => ?_⟩
  · rw [List.length_take, hperm.length_eq, List.length_range]
    exact Nat.min_eq_left h
  · exact List.mem_range.mp (hperm.mem_iff.mp (List.mem_of_mem_take hi))
  · have hmem : j ∈ l.take k ++ l.drop k := by
      rw [List.take_append_drop]
      exact hperm.mem_iff.mpr (List.mem_range.mpr hj)
    rw [← List.take_append_drop k l] at hsorted
    exact (List.pairwise_append.mp hsorted).2.2 i hi j ((List.mem_append.mp hmem).resolve_left hnot)

theorem exists_smallest (f : Nat → β) (h : k ≤ n) : ∃ sel, Smallest f n k sel :=
  ⟨_, smallest_spec f h⟩

theorem Smallest.of_finer {γ : Type*} [LinearOrder γ] {g : Nat → γ}
    (hfg : ∀ i j, g i ≤ g j → f i ≤ f j) (h : Smallest g n k sel) : Smallest f n k sel where
  length := h.length
  nodup := h.nodup
  lt := h.lt
  least i hi j hj hnot := hfg i j (h.least i hi j hj hnot)

/-! ## Counting -/

theorem length_le_countP {p : Nat → Bool} {l : List Nat} (hl : l.Nodup)
    (h : ∀ i ∈ l, i < n ∧ p i = true) : l.length ≤ (List.range n).countP p := by
  rw [List.countP_eq_length_filter]
  refine (hl.subperm fun i hi => ?_).length_le
  exact List.mem_filter.mpr ⟨List.mem_range.mpr (h i hi).1, (h i hi).2⟩

theorem countP_le_length {p : Nat → Bool} {l : List Nat}
    (h : ∀ i < n, p i = true → i ∈ l) : (List.range n).countP p ≤ l.length := by
  rw [List.countP_eq_length_filter]
  refine ((List.nodup_range.filter _).subperm fun i hi => ?_).length_le
  obtain ⟨hi, hp⟩ := List.mem_filter.mp hi
  exact h i (List.mem_range.mp hi) hp

/-- **What must be selected**: if no more than `k` values are at a bound or below, all of these. -/
theorem Smallest.mem_of_le (h : Smallest f n k sel) {v : β}
    (hcount : (List.range n).countP (fun j => f j ≤ v) ≤ k) {b : Nat} (hb : b < n) (hv : f b ≤ v) :
    b ∈ sel := by
  by_contra hnot
  have hlen : (b :: sel).length ≤ (List.range n).countP fun j => f j ≤ v := by
    refine length_le_countP (List.nodup_cons.mpr ⟨hnot, h.nodup⟩) fun i hi => ?_
    rcases List.mem_cons.mp hi with rfl | hi
    · exact ⟨hb, decide_eq_true hv⟩
    · exact ⟨h.lt i hi, decide_eq_true ((h.least i hi b hb hnot).trans hv)⟩
  rw [List.length_cons, h.length] at hlen
  omega

/-- **What is not selected**: if at least `k` values are below a bound, nothing from the bound on. -/
theorem Smallest.lt_of_count (h : Smallest f n k sel) {v : β}
    (hcount : k ≤ (List.range n).countP fun j => f j < v) {i : Nat} (hi : i ∈ sel) : f i < v := by
  by_contra hle
  have hbelow : ∀ j < n, f j < v → j ∈ sel := by
    intro j hj hlt
    by_contra hnot
    exact hle ((h.least i hi j hj hnot).trans_lt hlt)
  have hlen : (List.range n).countP (fun j => f j < v) ≤ (sel.erase i).length := by
    refine countP_le_length fun j hj hlt => ?_
    have hlt := of_decide_eq_true hlt
    refine (List.mem_erase_of_ne ?_).mpr (hbelow j hj hlt)
    rintro rfl
    exact hle hlt
  rw [List.length_erase_of_mem hi, h.length] at hlen
  have hpos := List.length_pos_of_mem hi
  rw [h.length] at hpos
  omega

/-- **What need not be selected**: a value, if more than `k` values are no greater. -/
theorem exists_smallest_notMem {b : Nat}
    (h : k < (List.range n).countP fun j => f j ≤ f b) : ∃ sel, Smallest f n k sel ∧ b ∉ sel := by
  have hk : k ≤ n := by
    have := List.countP_le_length (p := fun j => decide (f j ≤ f b)) (l := List.range n)
    rw [List.length_range] at this
    omega
  -- of equal values that of `b` comes last
  let g : Nat → β ×ₗ Nat := fun j => toLex (f j, if j = b then 1 else 0)
  obtain ⟨sel, hsel⟩ := exists_smallest g hk
  refine ⟨sel, hsel.of_finer fun i j hij => ?_, fun hb => ?_⟩
  · rcases (Prod.Lex.le_iff).mp hij with hlt | ⟨heq, -⟩
    · exact hlt.le
    · exact heq.le
  · have hlen : (List.range n).countP (fun j => f j ≤ f b) ≤ sel.length := by
      refine countP_le_length fun j hj hle => ?_
      have hle := of_decide_eq_true hle
      by_contra hnot
      have hjb : j ≠ b := fun hc => hnot (hc ▸ hb)
      rcases (Prod.Lex.le_iff).mp (hsel.least b hb j hj hnot) with hlt | ⟨-, hle'⟩
      · exact absurd hlt (not_lt.mpr hle)
      · simp [g, hjb] at hle'
    rw [hsel.length] at hlen
    omega

/-- **What may be selected**: a value, if fewer than `k` values are below it. -/
theorem exists_smallest_mem {b : Nat} (hk : k ≤ n) (hb : b < n)
    (h : (List.range n).countP (fun j => f j < f b) < k) : ∃ sel, Smallest f n k sel ∧ b ∈ sel := by
  -- of equal values that of `b` comes first
  let g : Nat → β ×ₗ Nat := fun j => toLex (f j, if j = b then 0 else 1)
  obtain ⟨sel, hsel⟩ := exists_smallest g hk
  refine ⟨sel, hsel.of_finer fun i j hij => ?_, ?_⟩
  · rcases (Prod.Lex.le_iff).mp hij with hlt | ⟨heq, -⟩
    · exact hlt.le
    · exact heq.le
  · by_contra hnot
    have hlen : sel.length ≤ (List.range n).countP fun j => f j < f b := by
      refine length_le_countP hsel.nodup fun i hi => ⟨hsel.lt i hi, decide_eq_true ?_⟩
      have hib : i ≠ b := fun hc => hnot (hc ▸ hi)
      rcases (Prod.Lex.le_iff).mp (hsel.least i hi b hb hnot) with hlt | ⟨-, hle⟩
      · exact hlt
      · simp [g, hib] at hle
    rw [hsel.length] at hlen
    omega

end Lib.Selection
