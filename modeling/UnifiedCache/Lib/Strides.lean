import Mathlib.Algebra.BigOperators.Group.List.Basic
import Mathlib.Data.List.Forall2
import Mathlib.Tactic.Common

/-!
# Strided tensors

The element of an index lies at the sum of its coordinates times the strides. With the strides of a
contiguous tensor every index of the shape has an element of its own, and the elements are those below
the product of the shape. A tensor may be seen as one of smaller elements, which follow each other in
the last dimension.
-/

namespace Lib.Strides

variable {shape i j : List Nat} {k : Nat}

/-- The strides of a contiguous tensor. -/
def contiguous : List Nat → List Nat
  | [] => []
  | _ :: shape => shape.prod :: contiguous shape

/-- Where the element of an index lies. -/
def offset : List Nat → List Nat → Nat
  | stride :: strides, x :: index => x * stride + offset strides index
  | _, _ => 0

/-- The index is one of the shape. -/
def InBounds (index shape : List Nat) : Prop := List.Forall₂ (· < ·) index shape

theorem mul_add_lt {x n a m : Nat} (hx : x < n) (ha : a < m) : x * m + a < n * m := by
  have hsucc : (x + 1) * m ≤ n * m := Nat.mul_le_mul_right _ hx
  rw [Nat.add_mul, Nat.one_mul] at hsucc
  omega

theorem offset_lt (h : InBounds i shape) : offset (contiguous shape) i < shape.prod := by
  induction h with
  | nil => exact Nat.one_pos
  | cons hx _ ih => exact mul_add_lt hx ih

theorem mul_add_div_of_lt {x a n : Nat} (ha : a < n) : (x * n + a) / n = x := by
  have hn : 0 < n := Nat.lt_of_le_of_lt (Nat.zero_le a) ha
  rw [Nat.add_comm, Nat.add_mul_div_right _ _ hn, Nat.div_eq_of_lt ha, Nat.zero_add]

theorem mul_add_inj {x y a b n : Nat} (ha : a < n) (hb : b < n) (h : x * n + a = y * n + b) :
    x = y ∧ a = b := by
  have hxy : x = y := by
    rw [← mul_add_div_of_lt (x := x) ha, h, mul_add_div_of_lt hb]
  subst hxy
  exact ⟨rfl, Nat.add_left_cancel h⟩

theorem exists_mul_add {x n m : Nat} (h : x < n * m) : ∃ i < n, ∃ a < m, x = i * m + a := by
  have hm : 0 < m := by
    apply Nat.pos_of_ne_zero
    rintro rfl
    exact Nat.not_lt_zero x h
  refine ⟨x / m, ?_, x % m, Nat.mod_lt x hm, (Nat.div_add_mod' x m).symm⟩
  apply Nat.div_lt_of_lt_mul
  rw [Nat.mul_comm]
  exact h

theorem offset_inj (hi : InBounds i shape) (hj : InBounds j shape)
    (h : offset (contiguous shape) i = offset (contiguous shape) j) : i = j := by
  induction hi generalizing j with
  | nil =>
    cases hj
    rfl
  | cons hx hrest ih =>
    cases hj with
    | cons hy hrest' =>
      obtain ⟨hxy, hoff⟩ := mul_add_inj (offset_lt hrest) (offset_lt hrest') h
      rw [hxy, ih hrest' hoff]

/-! ## Smaller elements -/

/-- The shape of a tensor that is seen as one of `k` times smaller elements. -/
def splitShape (k : Nat) : List Nat → List Nat
  | [] => []
  | [n] => [n * k]
  | n :: m :: shape => n :: splitShape k (m :: shape)

/-- Its strides. -/
def splitStrides (k : Nat) : List Nat → List Nat
  | [] => []
  | [_] => [1]
  | s :: t :: strides => s * k :: splitStrides k (t :: strides)

theorem prod_splitShape (k n : Nat) (shape : List Nat) :
    (splitShape k (n :: shape)).prod = (n :: shape).prod * k := by
  induction shape generalizing n with
  | nil => rw [splitShape, List.prod_singleton, List.prod_singleton]
  | cons m shape ih => rw [splitShape, List.prod_cons, ih m, ← Nat.mul_assoc, ← List.prod_cons]

theorem splitStrides_contiguous (k : Nat) (shape : List Nat) :
    splitStrides k (contiguous shape) = contiguous (splitShape k shape) := by
  induction shape with
  | nil => rfl
  | cons n shape ih =>
    cases shape with
    | nil => rfl
    | cons m shape =>
      show (m :: shape).prod * k :: splitStrides k (contiguous (m :: shape)) = _
      rw [ih, splitShape, contiguous, prod_splitShape]

end Lib.Strides
