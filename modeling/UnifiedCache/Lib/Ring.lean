import Mathlib.Data.Nat.ModEq
import Mathlib.Logic.Function.Basic
import Mathlib.Tactic.Common

/-!
# Rings

A ring of `cap` slots holds a list from a slot `t` on: element `k` is in `slot cap t k`. Writing the
slot behind the last element extends the list, leaving the first slot drops its head.
-/

namespace Lib.Ring

variable {α : Type*} {cap t j k : Nat}

/-- The slot `k` places after `t`. -/
def slot (cap t k : Nat) : Nat := (t + k) % cap

theorem slot_lt (hcap : 0 < cap) : slot cap t k < cap := Nat.mod_lt _ hcap

theorem slot_zero (ht : t < cap) : slot cap t 0 = t := Nat.mod_eq_of_lt ht

theorem slot_slot : slot cap (slot cap t j) k = slot cap t (j + k) := by
  rw [slot, slot, slot, Nat.mod_add_mod, Nat.add_assoc]

theorem slot_inj (hj : j < cap) (hk : k < cap) (h : slot cap t j = slot cap t k) : j = k := by
  have hmod : t + j ≡ t + k [MOD cap] := h
  exact (Nat.ModEq.add_left_cancel' t hmod).eq_of_lt_of_lt hj hk

theorem slot_ne (t : Nat) (hj : j < cap) (hk : k < cap) (h : j ≠ k) :
    slot cap t j ≠ slot cap t k :=
  fun hs => h (slot_inj hj hk hs)

theorem slot_ne_self (ht : t < cap) (hpos : 0 < k) (hk : k < cap) : slot cap t k ≠ t := by
  have hne := slot_ne t hk (Nat.lt_trans hpos hk) (Nat.ne_of_gt hpos)
  rwa [slot_zero ht] at hne

/-- The ring holds the elements of `l` from number `n` on, counted from slot `t`. -/
def Holds (buffer : Nat → Option α) (cap t n : Nat) (l : List α) : Prop :=
  ∀ k, n ≤ k → ∀ (hk : k < l.length), buffer (slot cap t k) = some l[k]

theorem Holds.nil (buffer : Nat → Option α) (cap t n : Nat) : Holds buffer cap t n [] := by
  intro k _ hk
  exact absurd hk (Nat.not_lt_zero k)

theorem Holds.head {buffer : Nat → Option α} {v : α} {l : List α}
    (h : Holds buffer cap t 0 (v :: l)) (ht : t < cap) : buffer t = some v := by
  have hfirst := h 0 (Nat.le_refl 0) (Nat.zero_lt_succ l.length)
  rwa [slot_zero ht] at hfirst

theorem Holds.write {buffer : Nat → Option α} {n i : Nat} {l : List α} {v : Option α}
    (h : Holds buffer cap t n l) (hi : ∀ k, n ≤ k → k < l.length → i ≠ slot cap t k) :
    Holds (Function.update buffer i v) cap t n l := by
  intro k hn hk
  rw [Function.update_of_ne (hi k hn hk).symm]
  exact h k hn hk

theorem Holds.snoc {buffer : Nat → Option α} {n : Nat} {l : List α} {v : α}
    (h : Holds buffer cap t n l) (hv : buffer (slot cap t l.length) = some v) :
    Holds buffer cap t n (l ++ [v]) := by
  intro k hn hk
  by_cases hl : k < l.length
  · rw [List.getElem_append_left hl]
    exact h k hn hl
  · have hkl : k = l.length := by
      rw [List.length_append, List.length_singleton] at hk
      omega
    subst hkl
    simpa using hv

theorem Holds.tail {buffer : Nat → Option α} {v : α} {l : List α}
    (h : Holds buffer cap t 1 (v :: l)) : Holds buffer cap (slot cap t 1) 0 l := by
  intro k _ hk
  have hkl : k + 1 < (v :: l).length := by
    rw [List.length_cons]
    omega
  rw [slot_slot, Nat.add_comm 1 k]
  simpa using h (k + 1) (Nat.le_add_left 1 k) hkl

end Lib.Ring
