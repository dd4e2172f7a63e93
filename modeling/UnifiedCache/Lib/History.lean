import Mathlib.Data.List.Basic

/-!
# Histories

A history is the list of the actions so far. It is guarded if every action is allowed by the actions
before it.
-/

namespace Lib.History

variable {α : Type*} {ok : List α → α → Prop} {h l : List α} {a : α}

/-- Every action is allowed by those before it. -/
def Guarded (ok : List α → α → Prop) (h : List α) : Prop :=
  ∀ pre a post, h = pre ++ a :: post → ok pre a

theorem Guarded.append (hh : Guarded ok h)
    (hl : ∀ pre a post, l = pre ++ a :: post → ok (h ++ pre) a) : Guarded ok (h ++ l) := by
  intro pre a post heq
  rcases List.append_eq_append_iff.mp heq with ⟨as, rfl, hl'⟩ | ⟨bs, rfl, hbs⟩
  · exact hl as a post hl'
  · cases bs with
    | nil =>
      rw [List.nil_append] at hbs
      have := hl [] a post (by rw [List.nil_append, hbs])
      rwa [List.append_nil, List.append_nil] at this
    | cons b bs =>
      obtain ⟨rfl, -⟩ := List.cons.inj hbs
      exact hh pre a bs rfl

theorem Guarded.concat (hh : Guarded ok h) (ha : ok h a) : Guarded ok (h ++ [a]) := by
  refine hh.append fun pre b post heq => ?_
  cases pre with
  | nil =>
    obtain ⟨rfl, -⟩ := List.cons.inj heq
    rwa [List.append_nil]
  | cons b' pre =>
    obtain ⟨-, hnil⟩ := List.cons.inj heq
    exact absurd hnil.symm (List.append_ne_nil_of_right_ne_nil _ (List.cons_ne_nil _ _))

theorem guarded_of_forall (hh : ∀ a ∈ h, ∀ pre, ok pre a) : Guarded ok h := by
  rintro pre a post rfl
  exact hh a (List.mem_append_right _ List.mem_cons_self) pre

end Lib.History
