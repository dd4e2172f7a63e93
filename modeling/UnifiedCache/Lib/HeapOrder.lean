import Mathlib.Order.Defs.Unbundled
import Mathlib.Tactic.Common

/-!
# Heap order

A binary heap is a sequence `x` whose first `n` elements are ordered along the tree in which position
`i > 0` has the parent `(i - 1) / 2`: no element is before its parent. An element that is out of order
moves up, or down, by exchanges with a parent or a child. `UpOrder` and `DownOrder` say what is in
order while it does, `swap` that an exchange keeps that, and `done` that the heap is in order when the
element stops.
-/

namespace Lib.HeapOrder

variable {α : Type*} {r : α → α → Prop} {n pos c : Nat} {x y : Nat → α}

theorem not_lt_trans [IsStrictWeakOrder α r] {a b c : α} (hab : ¬ r a b) (hbc : ¬ r b c) :
    ¬ r a c := by
  intro hac
  have hba : ¬ r b a := fun hba => hbc (IsTrans.trans b a c hba hac)
  have hcb : ¬ r c b := fun hcb => hab (IsTrans.trans a c b hac hcb)
  have hincomp := @IsStrictWeakOrder.incomp_trans α r _ a b c ⟨hab, hba⟩ ⟨hbc, hcb⟩
  exact hincomp.1 hac

theorem not_lt_of_lt [IsStrictWeakOrder α r] {a b : α} (h : r a b) : ¬ r b a :=
  fun hba => Std.Irrefl.irrefl (r := r) a (IsTrans.trans a b a h hba)

/-- No element is before its parent. -/
def Ordered (r : α → α → Prop) (n : Nat) (x : Nat → α) : Prop :=
  ∀ i, 0 < i → i < n → ¬ r (x i) (x ((i - 1) / 2))

/-- The sequence with the elements at two positions exchanged. -/
def swapAt (x : Nat → α) (i j : Nat) : Nat → α :=
  fun k => if k = i then x j else if k = j then x i else x k

@[simp] theorem swapAt_left (x : Nat → α) (i j : Nat) : swapAt x i j i = x j := if_pos rfl

@[simp] theorem swapAt_right (x : Nat → α) (i j : Nat) : swapAt x i j j = x i := by
  by_cases h : j = i
  · rw [h, swapAt_left]
  · rw [swapAt, if_neg h, if_pos rfl]

theorem swapAt_of_ne {i j k : Nat} (x : Nat → α) (hi : k ≠ i) (hj : k ≠ j) :
    swapAt x i j k = x k := by
  rw [swapAt, if_neg hi, if_neg hj]

theorem Ordered.root [IsStrictWeakOrder α r] (h : Ordered r n x) {i : Nat} (hi : i < n) :
    ¬ r (x i) (x 0) := by
  induction i using Nat.strongRecOn with
  | ind i ih =>
    by_cases h0 : i = 0
    · rw [h0]
      exact Std.Irrefl.irrefl _
    · exact not_lt_trans (h i (by omega) hi) (ih _ (by omega) (by omega))

theorem Ordered.mono {m : Nat} (h : Ordered r n x) (hm : m ≤ n) : Ordered r m x :=
  fun i h0 hi => h i h0 (by omega)

/-! ## Up -/

/-- In order but for the element at `pos`, which may be before its parent. -/
structure UpOrder (r : α → α → Prop) (n : Nat) (x : Nat → α) (pos : Nat) : Prop where
  except : ∀ i, 0 < i → i < n → i ≠ pos → ¬ r (x i) (x ((i - 1) / 2))
  /-- The children of the element are not before its parent. -/
  grand : 0 < pos → ∀ i, 0 < i → i < n → (i - 1) / 2 = pos → ¬ r (x i) (x ((pos - 1) / 2))

theorem Ordered.push (h : Ordered r n x) (hxy : ∀ i, i < n → y i = x i) :
    UpOrder r (n + 1) y n where
  except i h0 hi hne := by
    rw [hxy i (by omega), hxy _ (by omega)]
    exact h i h0 (by omega)
  grand h0 i hi0 hi hp := by omega

theorem UpOrder.done (h : UpOrder r n x pos) (hp : 0 < pos → ¬ r (x pos) (x ((pos - 1) / 2))) :
    Ordered r n x := by
  intro i h0 hi
  by_cases hne : i = pos
  · subst hne
    exact hp h0
  · exact h.except i h0 hi hne

theorem UpOrder.swap [IsStrictWeakOrder α r] (h : UpOrder r n x pos) (h0 : 0 < pos)
    (hn : pos < n) (hlt : r (x pos) (x ((pos - 1) / 2))) :
    UpOrder r n (swapAt x pos ((pos - 1) / 2)) ((pos - 1) / 2) := by
  generalize hp : (pos - 1) / 2 = p at hlt
  have hback : ¬ r (x p) (x pos) := not_lt_of_lt hlt
  refine ⟨?_, ?_⟩
  · intro i hi0 hi hne
    by_cases hpos : i = pos
    · subst hpos
      rw [hp, swapAt_left, swapAt_right]
      exact hback
    · rw [swapAt_of_ne x hpos hne]
      have hexc := h.except i hi0 hi hpos
      by_cases hpar : (i - 1) / 2 = pos
      · rw [hpar, swapAt_left, ← hp]
        exact h.grand h0 i hi0 hi hpar
      · by_cases hpar' : (i - 1) / 2 = p
        · rw [hpar', swapAt_right]
          rw [hpar'] at hexc
          exact not_lt_trans hexc hback
        · rw [swapAt_of_ne x hpar hpar']
          exact hexc
  · intro hp0 i hi0 hi hpar
    have hgrand : swapAt x pos p ((p - 1) / 2) = x ((p - 1) / 2) :=
      swapAt_of_ne x (by omega) (by omega)
    rw [hgrand]
    have hup := h.except p hp0 (by omega) (by omega)
    by_cases hpos : i = pos
    · subst hpos
      rw [swapAt_left]
      exact hup
    · rw [swapAt_of_ne x hpos (by omega)]
      have hexc := h.except i hi0 hi hpos
      rw [hpar] at hexc
      exact not_lt_trans hexc hup

/-! ## Down -/

/-- In order but for the element at `pos`, which children may be before. -/
structure DownOrder (r : α → α → Prop) (n : Nat) (x : Nat → α) (pos : Nat) : Prop where
  except : ∀ i, 0 < i → i < n → (i - 1) / 2 ≠ pos → ¬ r (x i) (x ((i - 1) / 2))
  /-- The children of the element are not before its parent. -/
  grand : 0 < pos → ∀ i, 0 < i → i < n → (i - 1) / 2 = pos → ¬ r (x i) (x ((pos - 1) / 2))

theorem Ordered.replace (h : Ordered r n x) (hxy : ∀ i, 0 < i → i < n → y i = x i) :
    DownOrder r n y 0 where
  except i h0 hi hp := by
    rw [hxy i h0 hi, hxy _ (by omega) (by omega)]
    exact h i h0 hi
  grand h0 := absurd h0 (Nat.lt_irrefl 0)

theorem DownOrder.done (h : DownOrder r n x pos)
    (hp : ∀ i, 0 < i → i < n → (i - 1) / 2 = pos → ¬ r (x i) (x pos)) : Ordered r n x := by
  intro i h0 hi
  by_cases hpar : (i - 1) / 2 = pos
  · rw [hpar]
    exact hp i h0 hi hpar
  · exact h.except i h0 hi hpar

theorem DownOrder.swap [IsStrictWeakOrder α r] (h : DownOrder r n x pos) (h0 : 0 < c)
    (hn : c < n) (hc : (c - 1) / 2 = pos) (hlt : r (x c) (x pos))
    (hmin : ∀ i, 0 < i → i < n → (i - 1) / 2 = pos → ¬ r (x i) (x c)) :
    DownOrder r n (swapAt x pos c) c := by
  refine ⟨?_, ?_⟩
  · intro i hi0 hi hpar
    by_cases hic : i = c
    · subst hic
      rw [hc, swapAt_right, swapAt_left]
      exact not_lt_of_lt hlt
    · by_cases hpos : i = pos
      · subst hpos
        rw [swapAt_left, swapAt_of_ne x (by omega) hpar]
        exact h.grand hi0 c h0 hn hc
      · rw [swapAt_of_ne x hpos hic]
        by_cases hpar' : (i - 1) / 2 = pos
        · rw [hpar', swapAt_left]
          exact hmin i hi0 hi hpar'
        · rw [swapAt_of_ne x hpar' hpar]
          exact h.except i hi0 hi hpar'
  · intro _ i hi0 hi hpar
    rw [hc, swapAt_left, swapAt_of_ne x (by omega) (by omega)]
    have hexc := h.except i hi0 hi (by omega)
    rwa [hpar] at hexc

end Lib.HeapOrder
