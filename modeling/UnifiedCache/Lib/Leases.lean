import Mathlib.Data.Finset.Lattice.Lemmas
import Mathlib.Data.Finset.SDiff
import Mathlib.Data.Finset.Disjoint
import Mathlib.Logic.Function.Basic
import Mathlib.Tactic.Common

/-!
# Slots leased to owners

A pool keeps the slots that are free and those that are allocated as two sets, and every owner has a list
of the slots it was given. The books are *exact* when the two sets split the pool and every allocated slot
is with one owner. Leasing new slots to an owner without any, and taking back all slots of an owner, keep
them so.
-/

namespace Lib.Leases

variable {α κ : Type*} [DecidableEq α] [DecidableEq κ] {all free allocated : Finset α}
  {owned : κ → List α} {new : List α} {k : κ} {x : α}

/-- The free slots, the allocated ones and those of the owners agree. -/
structure Exact (all free allocated : Finset α) (owned : κ → List α) : Prop where
  union : free ∪ allocated = all
  disjoint : Disjoint free allocated
  nodup : ∀ k, (owned k).Nodup
  /-- No slot is lost. -/
  mem_iff : ∀ x, x ∈ allocated ↔ ∃ k, x ∈ owned k
  /-- No slot is with two owners. -/
  unique : ∀ k k' x, x ∈ owned k → x ∈ owned k' → k = k'

omit [DecidableEq κ] in
theorem exact_empty (all : Finset α) : Exact all all ∅ fun _ : κ => ([] : List α) where
  union := Finset.union_empty all
  disjoint := Finset.disjoint_empty_right all
  nodup _ := List.nodup_nil
  mem_iff x := ⟨fun h => absurd h (Finset.notMem_empty x), fun ⟨_, h⟩ => absurd h List.not_mem_nil⟩
  unique _ _ _ h := absurd h List.not_mem_nil

theorem Exact.lease (h : Exact all free allocated owned) (hempty : owned k = []) (hnodup : new.Nodup)
    (hnew : ∀ x ∈ new, x ∈ free) :
    Exact all (free \ new.toFinset) (allocated ∪ new.toFinset) (Function.update owned k new) := by
  have hnot : ∀ x ∈ new, ∀ k', x ∉ owned k' := by
    intro x hx k' hmem
    exact Finset.disjoint_left.mp h.disjoint (hnew x hx) ((h.mem_iff x).mpr ⟨k', hmem⟩)
  refine ⟨?_, ?_, ?_, ?_, ?_⟩
  · rw [← h.union]
    ext x
    simp only [Finset.mem_union, Finset.mem_sdiff, List.mem_toFinset]
    constructor
    · rintro (⟨hfree, _⟩ | halloc | hx)
      · exact Or.inl hfree
      · exact Or.inr halloc
      · exact Or.inl (hnew x hx)
    · rintro (hfree | halloc)
      · by_cases hx : x ∈ new
        · exact Or.inr (Or.inr hx)
        · exact Or.inl ⟨hfree, hx⟩
      · exact Or.inr (Or.inl halloc)
  · refine Finset.disjoint_left.mpr fun x hx hx' => ?_
    obtain ⟨hfree, hnotNew⟩ := Finset.mem_sdiff.mp hx
    rcases Finset.mem_union.mp hx' with halloc | hmem
    · exact Finset.disjoint_left.mp h.disjoint hfree halloc
    · exact hnotNew hmem
  · intro k'
    by_cases hk : k' = k
    · rw [hk, Function.update_self]
      exact hnodup
    · rw [Function.update_of_ne hk]
      exact h.nodup k'
  · intro x
    rw [Finset.mem_union, List.mem_toFinset, h.mem_iff]
    constructor
    · rintro (⟨k', hk'⟩ | hx)
      · refine ⟨k', ?_⟩
        have hne : k' ≠ k := by
          rintro rfl
          rw [hempty] at hk'
          exact List.not_mem_nil hk'
        rw [Function.update_of_ne hne]
        exact hk'
      · exact ⟨k, by rw [Function.update_self]; exact hx⟩
    · rintro ⟨k', hk'⟩
      by_cases hk : k' = k
      · rw [hk, Function.update_self] at hk'
        exact Or.inr hk'
      · rw [Function.update_of_ne hk] at hk'
        exact Or.inl ⟨k', hk'⟩
  · intro k₁ k₂ x h₁ h₂
    by_cases hk₁ : k₁ = k
    · by_cases hk₂ : k₂ = k
      · rw [hk₁, hk₂]
      · rw [hk₁, Function.update_self] at h₁
        rw [Function.update_of_ne hk₂] at h₂
        exact absurd h₂ (hnot x h₁ k₂)
    · rw [Function.update_of_ne hk₁] at h₁
      by_cases hk₂ : k₂ = k
      · rw [hk₂, Function.update_self] at h₂
        exact absurd h₁ (hnot x h₂ k₁)
      · rw [Function.update_of_ne hk₂] at h₂
        exact h.unique k₁ k₂ x h₁ h₂

theorem Exact.release (h : Exact all free allocated owned) (k : κ) :
    Exact all (free ∪ (owned k).toFinset) (allocated \ (owned k).toFinset)
      (Function.update owned k []) := by
  refine ⟨?_, ?_, ?_, ?_, ?_⟩
  · rw [← h.union]
    ext x
    simp only [Finset.mem_union, Finset.mem_sdiff, List.mem_toFinset]
    constructor
    · rintro ((hfree | hx) | ⟨halloc, _⟩)
      · exact Or.inl hfree
      · exact Or.inr ((h.mem_iff x).mpr ⟨k, hx⟩)
      · exact Or.inr halloc
    · rintro (hfree | halloc)
      · exact Or.inl (Or.inl hfree)
      · by_cases hx : x ∈ owned k
        · exact Or.inl (Or.inr hx)
        · exact Or.inr ⟨halloc, hx⟩
  · refine Finset.disjoint_left.mpr fun x hx hx' => ?_
    obtain ⟨halloc, hnot⟩ := Finset.mem_sdiff.mp hx'
    rcases Finset.mem_union.mp hx with hfree | hmem
    · exact Finset.disjoint_left.mp h.disjoint hfree halloc
    · exact hnot hmem
  · intro k'
    by_cases hk : k' = k
    · rw [hk, Function.update_self]
      exact List.nodup_nil
    · rw [Function.update_of_ne hk]
      exact h.nodup k'
  · intro x
    rw [Finset.mem_sdiff, List.mem_toFinset, h.mem_iff]
    constructor
    · rintro ⟨⟨k', hk'⟩, hnot⟩
      refine ⟨k', ?_⟩
      have hne : k' ≠ k := by
        rintro rfl
        exact hnot hk'
      rw [Function.update_of_ne hne]
      exact hk'
    · rintro ⟨k', hk'⟩
      by_cases hk : k' = k
      · rw [hk, Function.update_self] at hk'
        exact absurd hk' List.not_mem_nil
      · rw [Function.update_of_ne hk] at hk'
        exact ⟨⟨k', hk'⟩, fun hx => hk (h.unique k' k x hk' hx)⟩
  · intro k₁ k₂ x h₁ h₂
    by_cases hk₁ : k₁ = k
    · rw [hk₁, Function.update_self] at h₁
      exact absurd h₁ List.not_mem_nil
    · by_cases hk₂ : k₂ = k
      · rw [hk₂, Function.update_self] at h₂
        exact absurd h₂ List.not_mem_nil
      · rw [Function.update_of_ne hk₁] at h₁
        rw [Function.update_of_ne hk₂] at h₂
        exact h.unique k₁ k₂ x h₁ h₂

end Lib.Leases
