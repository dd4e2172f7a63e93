import Mathlib.Algebra.BigOperators.Group.Finset.Basic
import Mathlib.Algebra.Ring.Basic
import Mathlib.Tactic.Ring

/-!
# Rotations of the halves of a vector

Element `j` of the first half and element `j` of the second are the two coordinates of a point, which is
turned by the angle whose cosine and sine are at `j`. Where the angles of a table add up, two turns are one.
A turn keeps the product of two vectors, so only the difference of their positions counts.
-/

namespace Lib.Rotary

variable {K : Type*} [CommRing K] {half rows : Nat} {cos sin cos' sin' x y : Nat → K} {j : Nat}

/-- The vector after the turn. -/
def rotate (half : Nat) (cos sin x : Nat → K) : Nat → K := fun j =>
  if j < half then x j * cos j - x (half + j) * sin j
  else x j * cos (j - half) + x (j - half) * sin (j - half)

theorem rotate_of_lt (h : j < half) :
    rotate half cos sin x j = x j * cos j - x (half + j) * sin j := if_pos h

theorem rotate_of_le (h : half ≤ j) :
    rotate half cos sin x j = x j * cos (j - half) + x (j - half) * sin (j - half) :=
  if_neg (Nat.not_lt.mpr h)

theorem rotate_congr (hcos : ∀ j < half, cos j = cos' j) (hsin : ∀ j < half, sin j = sin' j)
    (hx : ∀ j < half + half, x j = y j) (hj : j < half + half) :
    rotate half cos sin x j = rotate half cos' sin' y j := by
  rcases Nat.lt_or_ge j half with hlt | hge
  · rw [rotate_of_lt hlt, rotate_of_lt hlt, hcos j hlt, hsin j hlt, hx j hj, hx (half + j) (by omega)]
  · rw [rotate_of_le hge, rotate_of_le hge, hcos _ (by omega), hsin _ (by omega), hx j hj,
      hx (j - half) (by omega)]

theorem rotate_rotate (hj : j < half + half) :
    rotate half cos' sin' (rotate half cos sin x) j =
      rotate half (fun j => cos j * cos' j - sin j * sin' j)
        (fun j => sin j * cos' j + cos j * sin' j) x j := by
  rcases Nat.lt_or_ge j half with hlt | hge
  · rw [rotate_of_lt hlt, rotate_of_lt hlt, rotate_of_lt hlt, rotate_of_le (Nat.le_add_right half j),
      Nat.add_sub_cancel_left]
    ring
  · have hlt : j - half < half := by omega
    rw [rotate_of_le hge, rotate_of_le hge, rotate_of_le hge, rotate_of_lt hlt,
      Nat.add_sub_cancel' hge]
    ring

/-- The rows of a table satisfy the angle-addition laws. -/
structure AngleAddition (half rows : Nat) (cos sin : Nat → Nat → K) : Prop where
  cos_add : ∀ p d, p + d < rows → ∀ j < half,
    cos (p + d) j = cos p j * cos d j - sin p j * sin d j
  sin_add : ∀ p d, p + d < rows → ∀ j < half,
    sin (p + d) j = sin p j * cos d j + cos p j * sin d j

/-- **Two turns are one**, by the sum of the positions. -/
theorem AngleAddition.rotate_add {cos sin : Nat → Nat → K} (h : AngleAddition half rows cos sin)
    {p d : Nat} (hlt : p + d < rows) (hj : j < half + half) :
    rotate half (cos d) (sin d) (rotate half (cos p) (sin p) x) j =
      rotate half (cos (p + d)) (sin (p + d)) x j := by
  rw [rotate_rotate hj]
  apply rotate_congr
  · intro j hj
    rw [h.cos_add p d hlt j hj]
  · intro j hj
    rw [h.sin_add p d hlt j hj]
  · intro j _
    rfl
  · exact hj

/-! ## Products -/

open Finset in
theorem sum_halves (f : Nat → K) :
    ∑ j ∈ range (half + half), f j = ∑ j ∈ range half, (f j + f (half + j)) := by
  rw [sum_range_add, sum_add_distrib]

open Finset in
/-- **A turn keeps the product** of two vectors. -/
theorem sum_rotate_mul_rotate (hunit : ∀ j < half, cos j * cos j + sin j * sin j = 1) :
    ∑ j ∈ range (half + half), rotate half cos sin x j * rotate half cos sin y j =
      ∑ j ∈ range (half + half), x j * y j := by
  rw [sum_halves, sum_halves]
  refine sum_congr rfl fun j hj => ?_
  have hlt := mem_range.mp hj
  rw [rotate_of_lt hlt, rotate_of_lt hlt, rotate_of_le (Nat.le_add_right half j),
    rotate_of_le (Nat.le_add_right half j), Nat.add_sub_cancel_left]
  calc _ = (x j * y j + x (half + j) * y (half + j)) * (cos j * cos j + sin j * sin j) := by ring
    _ = _ := by rw [hunit j hlt, mul_one]

open Finset in
/-- **Only the difference of the positions counts.** -/
theorem AngleAddition.sum_rotate_mul {cos sin : Nat → Nat → K} (h : AngleAddition half rows cos sin)
    {n d : Nat} (hunit : ∀ j < half, cos n j * cos n j + sin n j * sin n j = 1) (hlt : n + d < rows) :
    ∑ j ∈ range (half + half),
        rotate half (cos (n + d)) (sin (n + d)) x j * rotate half (cos n) (sin n) y j =
      ∑ j ∈ range (half + half), rotate half (cos d) (sin d) x j * y j := by
  rw [Nat.add_comm n d] at hlt ⊢
  refine Eq.trans (sum_congr rfl fun j hj => ?_) (sum_rotate_mul_rotate hunit)
  rw [h.rotate_add hlt (mem_range.mp hj)]

end Lib.Rotary
