import Mathlib.Data.List.Perm.Basic
import Mathlib.Data.List.Nodup
import Mathlib.Tactic.Common

/-!
# Stripes of a list

`stride n r l` are the elements of a list at the places `r`, `r + n`, `r + 2 * n` and so on. The
stripes of a list for `r < n` are parts of it that, taken together, have every element once.
-/

namespace Lib

variable {α : Type*}

/-- The elements from place `r` on, every `n`th of them. -/
def stride (n : Nat) : Nat → List α → List α
  | _, [] => []
  | 0, x :: l => x :: stride n (n - 1) l
  | r + 1, _ :: l => stride n r l

@[simp] theorem stride_nil (n r : Nat) : stride n r ([] : List α) = [] := by cases r <;> rfl

theorem stride_zero_cons (n : Nat) (x : α) (l : List α) :
    stride n 0 (x :: l) = x :: stride n (n - 1) l := rfl

theorem stride_succ_cons (n r : Nat) (x : α) (l : List α) : stride n (r + 1) (x :: l) = stride n r l :=
  rfl

theorem getElem?_stride {n : Nat} (hn : 0 < n) (l : List α) (r j : Nat) :
    (stride n r l)[j]? = l[r + j * n]? := by
  induction l generalizing r j with
  | nil => simp
  | cons x l ih =>
    cases r with
    | succ r => rw [stride_succ_cons, ih, show r + 1 + j * n = r + j * n + 1 by omega,
        List.getElem?_cons_succ]
    | zero =>
      cases j with
      | zero => simp [stride_zero_cons]
      | succ j =>
        rw [stride_zero_cons, List.getElem?_cons_succ, ih, Nat.add_mul,
          show 0 + (j * n + 1 * n) = n - 1 + j * n + 1 by omega, List.getElem?_cons_succ]

theorem stride_map {β : Type*} (f : α → β) (n r : Nat) (l : List α) :
    stride n r (l.map f) = (stride n r l).map f := by
  induction l generalizing r with
  | nil => simp
  | cons x l ih =>
    cases r with
    | zero => rw [List.map_cons, stride_zero_cons, stride_zero_cons, ih, List.map_cons]
    | succ r => rw [List.map_cons, stride_succ_cons, stride_succ_cons, ih]

theorem stride_append (n : Nat) (xs l : List α) : stride n xs.length (xs ++ l) = stride n 0 l := by
  induction xs with
  | nil => rfl
  | cons x xs ih => rw [List.length_cons, List.cons_append, stride_succ_cons, ih]

theorem stride_rows {β : Type*} {n : Nat} (first : α → β) (rest : α → List β)
    (hrest : ∀ a, (rest a).length + 1 = n) (l : List α) :
    stride n 0 (l.flatMap fun a => first a :: rest a) = l.map first := by
  induction l with
  | nil => simp
  | cons a l ih =>
    rw [List.flatMap_cons, List.cons_append, stride_zero_cons, List.map_cons,
      show n - 1 = (rest a).length by rw [← hrest a]; rfl, stride_append, ih]

theorem length_stride {n r k : Nat} (hr : r < n) {l : List α} (hl : l.length = k * n) :
    (stride n r l).length = k := by
  have hn : 0 < n := Nat.zero_lt_of_lt hr
  have hnone : ∀ j, (stride n r l).length ≤ j ↔ k ≤ j := by
    intro j
    rw [← List.getElem?_eq_none_iff, getElem?_stride hn, List.getElem?_eq_none_iff, hl]
    constructor
    · intro h
      by_contra hj
      have := Nat.mul_le_mul_right n (show j + 1 ≤ k by omega)
      rw [Nat.add_mul] at this
      omega
    · intro h
      have := Nat.mul_le_mul_right n h
      omega
  exact Nat.le_antisymm ((hnone k).mpr (Nat.le_refl k)) ((hnone _).mp (Nat.le_refl _))

theorem flatMap_stride_perm {n : Nat} (hn : 0 < n) (l : List α) :
    ((List.range n).flatMap fun r => stride n r l).Perm l := by
  induction l with
  | nil => simp
  | cons x l ih =>
    obtain ⟨m, rfl⟩ : ∃ m, n = m + 1 := ⟨n - 1, by omega⟩
    have hfirst : ((List.range (m + 1)).flatMap fun r => stride (m + 1) r (x :: l)) =
        x :: (stride (m + 1) m l ++ (List.range m).flatMap fun r => stride (m + 1) r l) := by
      rw [List.range_succ_eq_map, List.flatMap_cons, List.flatMap_map]
      rfl
    have hlast : ((List.range (m + 1)).flatMap fun r => stride (m + 1) r l) =
        ((List.range m).flatMap fun r => stride (m + 1) r l) ++ stride (m + 1) m l := by
      rw [List.range_succ, List.flatMap_append, List.flatMap_singleton]
    rw [hfirst]
    rw [hlast] at ih
    exact (List.perm_append_comm.trans ih).cons x

theorem flatMap_range_grid (a b : Nat) :
    ((List.range a).flatMap fun i => (List.range b).map fun j => b * i + j) = List.range (a * b) := by
  induction a with
  | zero => simp
  | succ a ih =>
    rw [List.range_succ, List.flatMap_append, ih, List.flatMap_singleton, Nat.succ_mul, List.range_add,
      Nat.mul_comm b a]

end Lib
