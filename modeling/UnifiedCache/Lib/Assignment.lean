import Mathlib.Logic.Function.Basic
import Mathlib.Tactic.Common

/-!
# Assignments kept in two maps

Places are assigned to keys one to one. A program that looks up both ways keeps two maps, and changes
them together: a new pair is added, or a place is taken from its key and given to another.
-/

namespace Lib

open Std (TreeMap TransOrd LawfulEqOrd)

variable {α β : Type*} {place : α → Option β} {key : β → Option α} {a a' : α} {b : β}

/-- The two maps are inverse to each other. -/
def Inverse (place : α → Option β) (key : β → Option α) : Prop :=
  ∀ a b, place a = some b ↔ key b = some a

namespace Inverse

theorem injective (h : Inverse place key) (ha : place a = some b) (ha' : place a' = some b) :
    a = a' := by
  have hkey := (h a b).mp ha
  have hkey' := (h a' b).mp ha'
  exact Option.some.inj (hkey.symm.trans hkey')

variable [DecidableEq α] [DecidableEq β]

theorem add (h : Inverse place key) (ha : place a = none) (hb : key b = none) :
    Inverse (Function.update place a (some b)) (Function.update key b (some a)) := by
  intro x y
  by_cases hx : x = a
  · subst hx
    rw [Function.update_self]
    by_cases hy : y = b
    · subst hy
      rw [Function.update_self]
      exact ⟨fun _ => rfl, fun _ => rfl⟩
    · rw [Function.update_of_ne hy, Option.some.injEq]
      refine ⟨fun heq => absurd heq.symm hy, fun hkey => ?_⟩
      rw [(h x y).mpr hkey] at ha
      cases ha
  · rw [Function.update_of_ne hx]
    by_cases hy : y = b
    · subst hy
      rw [Function.update_self, Option.some.injEq]
      refine ⟨fun hplace => ?_, fun heq => absurd heq.symm hx⟩
      rw [(h x y).mp hplace] at hb
      cases hb
    · rw [Function.update_of_ne hy]
      exact h x y

theorem remove (h : Inverse place key) (hb : key b = some a) :
    Inverse (Function.update place a none) (Function.update key b none) := by
  intro x y
  have hab := (h a b).mpr hb
  by_cases hx : x = a
  · subst hx
    rw [Function.update_self]
    refine ⟨nofun, fun hkey => ?_⟩
    by_cases hy : y = b
    · subst hy
      rw [Function.update_self] at hkey
      cases hkey
    · rw [Function.update_of_ne hy] at hkey
      have hplace := (h x y).mpr hkey
      rw [hab, Option.some.injEq] at hplace
      exact absurd hplace.symm hy
  · rw [Function.update_of_ne hx]
    by_cases hy : y = b
    · subst hy
      rw [Function.update_self]
      exact ⟨fun hplace => absurd (h.injective hplace hab) hx, nofun⟩
    · rw [Function.update_of_ne hy]
      exact h x y

theorem reassign (h : Inverse place key) (hb : key b = some a) (ha' : place a' = none) :
    Inverse (Function.update (Function.update place a none) a' (some b))
      (Function.update key b (some a')) := by
  have hfree : Function.update place a none a' = none := by
    by_cases heq : a' = a
    · rw [heq, Function.update_self]
    · rw [Function.update_of_ne heq]
      exact ha'
  have hadd := (h.remove hb).add hfree (Function.update_self b none key)
  rw [Function.update_idem] at hadd
  exact hadd

end Inverse

/-! ## Ordered maps -/

section TreeMap

variable {κ ν : Type*} [Ord κ] [TransOrd κ] [LawfulEqOrd κ]

theorem mem_toList_iff_get? {t : TreeMap κ ν} {k : κ} {v : ν} :
    (k, v) ∈ t.toList ↔ t.get? k = some v := Std.TreeMap.mem_toList_iff_getElem?_eq_some

variable [DecidableEq κ]

theorem get?_insert_eq (t : TreeMap κ ν) (k : κ) (v : ν) :
    (t.insert k v).get? = Function.update t.get? k (some v) := by
  funext x
  rw [Function.update_apply]
  refine Std.TreeMap.getElem?_insert.trans ?_
  simp only [Std.LawfulEqCmp.compare_eq_iff_eq, eq_comm (a := x)]
  rfl

theorem get?_erase_eq (t : TreeMap κ ν) (k : κ) :
    (t.erase k).get? = Function.update t.get? k none := by
  funext x
  rw [Function.update_apply]
  refine Std.TreeMap.getElem?_erase.trans ?_
  simp only [Std.LawfulEqCmp.compare_eq_iff_eq, eq_comm (a := x)]
  rfl

variable [Ord ν] [TransOrd ν] [LawfulEqOrd ν] [DecidableEq ν] {place : TreeMap κ ν}
  {key : TreeMap ν κ} {k : κ} {v : ν}

theorem Inverse.insert (h : Inverse place.get? key.get?) (hk : place.get? k = none)
    (hv : key.get? v = none) : Inverse (place.insert k v).get? (key.insert v k).get? := by
  rw [get?_insert_eq, get?_insert_eq]
  exact h.add hk hv

end TreeMap

end Lib
