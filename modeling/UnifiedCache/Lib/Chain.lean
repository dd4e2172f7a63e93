import Mathlib.Data.List.Basic
import Mathlib.Logic.Function.Basic

/-!
# Singly linked chains kept in an array

The links of a chain are a map `next` on nodes, and one node is the end. A chain depends on the links of its
own nodes only; it grows and shrinks at the front.
-/

namespace Lib

variable {α : Type*} {next next' : α → α} {stop x y : α} {l : List α}

/-- The nodes that `next` visits from a node on up to the end. -/
def Chain (next : α → α) (stop : α) : α → List α → Prop
  | x, [] => x = stop
  | x, y :: l => x = y ∧ y ≠ stop ∧ Chain next stop (next y) l

/-- **Frame.** -/
theorem Chain.congr (h : Chain next stop x l) (hl : ∀ y ∈ l, next' y = next y) :
    Chain next' stop x l := by
  induction l generalizing x with
  | nil => exact h
  | cons y l ih =>
    obtain ⟨hx, hy, hrest⟩ := h
    refine ⟨hx, hy, ?_⟩
    rw [hl y List.mem_cons_self]
    exact ih hrest fun z hz => hl z (List.mem_cons_of_mem y hz)

theorem Chain.update [DecidableEq α] (h : Chain next stop x l) (hy : y ∉ l) (z : α) :
    Chain (Function.update next y z) stop x l := by
  refine h.congr fun w hw => Function.update_of_ne ?_ z next
  rintro rfl
  exact hy hw

theorem Chain.eq_nil (h : Chain next stop stop l) : l = [] := by
  cases l with
  | nil => rfl
  | cons y l => exact absurd h.1.symm h.2.1

theorem Chain.exists_cons (h : Chain next stop x l) (hx : x ≠ stop) :
    ∃ rest, l = x :: rest ∧ Chain next stop (next x) rest := by
  cases l with
  | nil => exact absurd h hx
  | cons y l =>
    obtain ⟨rfl, -, hrest⟩ := h
    exact ⟨l, rfl, hrest⟩

end Lib
