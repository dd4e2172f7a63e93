import Mathlib.Data.List.Infix

/-!
# Segments

A range of places is cut into segments that follow each other. What is taken from a list segment by
segment is the range of the list.
-/

namespace Lib.Segments

variable {α : Type*} {a b c : Nat} {segments segments' : List (Nat × Nat)}

/-- Segments, each as its start and a positive length, that follow each other from `a` to `b`. -/
inductive Cut : Nat → Nat → List (Nat × Nat) → Prop
  | nil (a : Nat) : Cut a a []
  | cons {a b n : Nat} {segments : List (Nat × Nat)} (hn : 0 < n) (h : Cut (a + n) b segments) :
    Cut a b ((a, n) :: segments)

/-- The places of a segment. -/
def places (s : Nat × Nat) : List Nat := List.range' s.1 s.2

theorem Cut.le (h : Cut a b segments) : a ≤ b := by
  induction h with
  | nil a => exact Nat.le_refl a
  | cons _ _ ih => omega

theorem Cut.head {s : Nat × Nat} (h : Cut a b (s :: segments)) : s.1 = a ∧ 0 < s.2 := by
  cases h with
  | cons hn _ => exact ⟨rfl, hn⟩

theorem Cut.tail {s : Nat × Nat} (h : Cut a b (s :: segments)) : Cut (s.1 + s.2) b segments := by
  cases h with
  | cons _ h => exact h

theorem Cut.getLast? (h : Cut a b segments) : ∀ s ∈ segments.getLast?, s.1 + s.2 = b := by
  induction h with
  | nil a => exact fun s hs => absurd hs (by simp)
  | @cons a b n segments _ h ih =>
    cases segments with
    | nil =>
      cases h
      intro s hs
      obtain rfl := Option.some.inj hs
      rfl
    | cons s' segments =>
      rw [List.getLast?_cons_cons]
      exact ih

theorem Cut.concat (h : Cut a b segments) {n : Nat} (hn : 0 < n) :
    Cut a (b + n) (segments ++ [(b, n)]) := by
  induction h with
  | nil a => exact .cons hn (.nil _)
  | cons hm _ ih => exact .cons hm ih

theorem Cut.mem (h : Cut a b segments) {s : Nat × Nat} (hs : s ∈ segments) :
    a ≤ s.1 ∧ 0 < s.2 ∧ s.1 + s.2 ≤ b := by
  induction h with
  | nil a => exact absurd hs List.not_mem_nil
  | cons hn h ih =>
    have hle := h.le
    rcases List.mem_cons.mp hs with rfl | hs
    · exact ⟨Nat.le_refl _, hn, hle⟩
    · obtain ⟨hstart, hpos, hend⟩ := ih hs
      exact ⟨by omega, hpos, hend⟩

/-- **The segments cover the range**, and every place once. -/
theorem Cut.flatMap_places (h : Cut a b segments) :
    segments.flatMap places = List.range' a (b - a) := by
  induction h with
  | nil a =>
    rw [Nat.sub_self]
    rfl
  | @cons a b n segments _ h ih =>
    have hle := h.le
    rw [List.flatMap_cons, ih, places, List.range'_append_1]
    congr 1
    omega

end Lib.Segments
