import Mathlib.Logic.Relation
import Mathlib.Logic.Function.Basic
import Mathlib.Tactic.Common

/-!
# Locks and who waits for whom

A table of locks says for every lock which thread holds it. Two things are said about such tables
here. `Held owner held` ties the table to what every thread thinks it holds, with one rule for
taking a lock, one for letting it go and one for a step that touches no lock. `WaitsFor` is the
waits-for relation; `Ranked` is the condition under which it has no cycle: going from a blocked
thread to the thread it waits for, if that one is blocked too, a bounded rank goes up.
-/

namespace Lib

variable {τ ρ : Type*}

/-! ## Ownership -/

/-- The table `owner` agrees with the locks every thread holds. -/
def Held (owner : ρ → Option τ) (held : τ → ρ → Prop) : Prop :=
  ∀ r t, owner r = some t ↔ held t r

namespace Held

variable {owner : ρ → Option τ} {held held' : τ → ρ → Prop} {r : ρ} {t : τ}

theorem unique {u : τ} (h : Held owner held) (ht : held t r) (hu : held u r) : t = u := by
  have h1 := (h r t).mpr ht
  have h2 := (h r u).mpr hu
  rw [h1] at h2
  exact Option.some.inj h2

theorem keep (h : Held owner held) (hh : ∀ u r, held' u r ↔ held u r) : Held owner held' :=
  fun r u => (h r u).trans (hh u r).symm

variable [DecidableEq ρ]

theorem take (h : Held owner held) (hfree : owner r = none)
    (hh : ∀ u q, held' u q ↔ held u q ∨ u = t ∧ q = r) :
    Held (Function.update owner r (some t)) held' := by
  intro q u
  rw [hh]
  by_cases hq : q = r
  · subst hq
    have hn : ¬ held u q := fun hu => by
      have := (h q u).mpr hu
      rw [hfree] at this
      cases this
    rw [Function.update_self, Option.some.injEq]
    constructor
    · rintro rfl
      exact .inr ⟨rfl, rfl⟩
    · rintro (hu | ⟨rfl, -⟩)
      · exact absurd hu hn
      · rfl
  · rw [Function.update_of_ne hq, h q u]
    constructor
    · exact .inl
    · rintro (hu | ⟨-, hc⟩)
      · exact hu
      · exact absurd hc hq

theorem free (h : Held owner held) (hr : held t r)
    (hh : ∀ u q, held' u q ↔ held u q ∧ q ≠ r) : Held (Function.update owner r none) held' := by
  intro q u
  rw [hh]
  by_cases hq : q = r
  · subst hq
    simp
  · rw [Function.update_of_ne hq, h q u]
    exact ⟨fun hu => ⟨hu, hq⟩, fun hu => hu.1⟩

end Held

/-! ## The waits-for relation -/

section Waits

variable (owner : ρ → Option τ) (wants : τ → Option ρ)

/-- `t` is about to lock a lock that `u` holds. -/
def WaitsFor (t u : τ) : Prop := ∃ r, wants t = some r ∧ owner r = some u

/-- `t` is about to lock a lock that is held. -/
def Blocked (t : τ) : Prop := ∃ u, WaitsFor owner wants t u

/-- A bounded rank that goes up from a blocked thread to the blocked thread it waits for. -/
structure Ranked (rank : τ → Nat) (bound : Nat) : Prop where
  lt : ∀ t u, WaitsFor owner wants t u → Blocked owner wants u → rank t < rank u
  le : ∀ t, rank t ≤ bound

variable {owner wants} {rank : τ → Nat} {bound : Nat}

namespace Ranked

theorem lt_of_transGen {t u : τ} (h : Ranked owner wants rank bound)
    (htu : Relation.TransGen (WaitsFor owner wants) t u) (hu : Blocked owner wants u) :
    rank t < rank u := by
  induction htu using Relation.TransGen.head_induction_on with
  | single hab => exact h.lt _ _ hab hu
  | @head a c hac hcu ih =>
    have hc : Blocked owner wants c := by
      obtain ⟨d, hd, -⟩ := Relation.TransGen.head'_iff.mp hcu
      exact ⟨d, hd⟩
    exact Nat.lt_trans (h.lt _ _ hac hc) ih

/-- **The waits-for relation has no cycle.** -/
theorem acyclic (h : Ranked owner wants rank bound) (t : τ) :
    ¬ Relation.TransGen (WaitsFor owner wants) t t := by
  intro hc
  have hb : Blocked owner wants t := by
    obtain ⟨d, hd, -⟩ := Relation.TransGen.head'_iff.mp hc
    exact ⟨d, hd⟩
  exact Nat.lt_irrefl _ (h.lt_of_transGen hc hb)

/-- **Whoever is blocked waits, in the end, for a thread that is not.** -/
theorem exists_free (h : Ranked owner wants rank bound) {t : τ} (ht : Blocked owner wants t) :
    ∃ u, Relation.TransGen (WaitsFor owner wants) t u ∧ ¬ Blocked owner wants u := by
  induction hn : bound - rank t using Nat.strongRecOn generalizing t with
  | _ n ih =>
    obtain ⟨u, hu⟩ := ht
    by_cases hb : Blocked owner wants u
    · have hlt := h.lt t u hu hb
      have hle := h.le u
      obtain ⟨v, huv, hv⟩ := ih (bound - rank u) (by omega) hb rfl
      exact ⟨v, .head hu huv, hv⟩
    · exact ⟨u, .single hu, hb⟩

end Ranked

end Waits

end Lib
