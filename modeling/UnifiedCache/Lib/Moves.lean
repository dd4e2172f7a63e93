import Mathlib.Data.List.Nodup
import Mathlib.Logic.Function.Basic

/-!
# Copies in place

Copies within one memory, one after the other. When no place is written twice and none that is written
is read, they leave in every place that is written what was in its source, in whatever order they run.
-/

namespace Lib.Moves

variable {α β : Type*} [DecidableEq α] {cache : α → β} {moves : List (α × α)} {a : α}

/-- The copies from the first places to the second ones. -/
def copyAll (cache : α → β) (moves : List (α × α)) : α → β :=
  moves.foldl (fun cache m => Function.update cache m.2 (cache m.1)) cache

/-- No place is written twice, and none that is written is read. -/
structure Safe (moves : List (α × α)) : Prop where
  nodup : (moves.map Prod.snd).Nodup
  disjoint : ∀ m ∈ moves, m.1 ∉ moves.map Prod.snd

omit [DecidableEq α] in
theorem Safe.perm {moves' : List (α × α)} (h : Safe moves) (hperm : moves'.Perm moves) :
    Safe moves' where
  nodup := (hperm.map Prod.snd).nodup_iff.mpr h.nodup
  disjoint m hm hmem := h.disjoint m (hperm.subset hm) ((hperm.map Prod.snd).subset hmem)

theorem copyAll_of_notMem (h : a ∉ moves.map Prod.snd) : copyAll cache moves a = cache a := by
  induction moves generalizing cache with
  | nil => rfl
  | cons m moves ih =>
    rw [List.map_cons, List.mem_cons, not_or] at h
    show copyAll (Function.update cache m.2 (cache m.1)) moves a = cache a
    rw [ih h.2, Function.update_of_ne h.1]

theorem copyAll_of_mem (h : Safe moves) {m : α × α} (hm : m ∈ moves) :
    copyAll cache moves m.2 = cache m.1 := by
  induction moves generalizing cache with
  | nil => exact absurd hm List.not_mem_nil
  | cons m' moves ih =>
    have hnodup := List.nodup_cons.mp h.nodup
    show copyAll (Function.update cache m'.2 (cache m'.1)) moves m.2 = cache m.1
    rcases List.mem_cons.mp hm with rfl | hm'
    · rw [copyAll_of_notMem hnodup.1, Function.update_self]
    · have hrest : Safe moves :=
        ⟨hnodup.2, fun n hn hmem => h.disjoint n (List.mem_cons_of_mem _ hn)
          (List.mem_cons_of_mem _ hmem)⟩
      have hne : m.1 ≠ m'.2 := by
        intro heq
        exact h.disjoint m hm (heq ▸ List.mem_cons_self)
      rw [ih hrest hm', Function.update_of_ne hne]

end Lib.Moves
