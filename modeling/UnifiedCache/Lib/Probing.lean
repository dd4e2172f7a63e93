import Mathlib.Data.Nat.Basic
import Mathlib.Logic.Function.Basic
import Mathlib.Tactic.Common

/-!
# Linear probing

A table of `n` slots, some of which have a key. The slots of a key are probed one after the other
from its home on and around the table, and a key is in the table only where the probe reaches it
before an empty slot. A key may replace another one in place, and a key that is removed leaves a full
slot without a key: no slot becomes empty again.
-/

namespace Lib.Probing

variable {κ : Type*} {n : Nat} {home : κ → Nat} {table table' : Nat → Option κ}
  {full full' : Nat → Prop} {k : κ} {h i j p : Nat}

/-- The slot that is probed after `i` others. -/
def slot (n h i : Nat) : Nat := (h + i) % n

theorem slot_lt (hn : 0 < n) (h i : Nat) : slot n h i < n := Nat.mod_lt _ hn

theorem slot_zero (n h : Nat) : slot n h 0 = h % n := rfl

theorem slot_succ (n h i : Nat) : (slot n h i + 1) % n = slot n h (i + 1) := by
  rw [slot, slot, Nat.mod_add_mod, Nat.add_assoc]

theorem slot_ne_start (hn : 0 < n) (h : Nat) (hi : 0 < i) (hlt : i < n) : slot n h i ≠ slot n h 0 := by
  intro heq
  have hmod : (h % n + i) % n = h % n := by
    rw [Nat.mod_add_mod]
    exact heq
  have hlt' := Nat.mod_lt h hn
  rcases Nat.lt_or_ge (h % n + i) n with hsum | hsum
  · rw [Nat.mod_eq_of_lt hsum] at hmod
    omega
  · rw [Nat.mod_eq_sub_mod hsum, Nat.mod_eq_of_lt (by omega)] at hmod
    omega

theorem slot_full (n h : Nat) : slot n h n = slot n h 0 := by
  rw [slot, slot, Nat.add_mod_right, Nat.add_zero]

theorem exists_slot (h : Nat) (hp : p < n) : ∃ i < n, slot n h i = p := by
  have hn : 0 < n := Nat.lt_of_le_of_lt (Nat.zero_le p) hp
  refine ⟨(p + (n - h % n)) % n, Nat.mod_lt _ hn, ?_⟩
  have hmod : h % n ≤ n := Nat.le_of_lt (Nat.mod_lt h hn)
  have hdiv : n * (h / n) + h % n = h := Nat.div_add_mod h n
  have hsum : h + (p + (n - h % n)) = p + n * (h / n + 1) := by
    rw [Nat.mul_add, Nat.mul_one]
    omega
  rw [slot, Nat.add_mod_mod, hsum, Nat.add_mul_mod_self_left, Nat.mod_eq_of_lt hp]

/-! ## Tables with full slots that have no key -/

/-- No key is in two slots, and every key is reached by its probe over full slots. -/
structure Kept (n : Nat) (home : κ → Nat) (table : Nat → Option κ) (full : Nat → Prop) : Prop where
  isFull : ∀ p < n, ∀ k, table p = some k → full p
  unique : ∀ p < n, ∀ q < n, ∀ k, table p = some k → table q = some k → p = q
  reach : ∀ p < n, ∀ k, table p = some k →
    ∃ i < n, p = slot n (home k) i ∧ ∀ j < i, full (slot n (home k) j)

theorem kept_empty (n : Nat) (home : κ → Nat) (full : Nat → Prop) :
    Kept n home (fun _ => none) full where
  isFull p _ k hk := by cases hk
  unique p _ q _ k hk := by cases hk
  reach p _ k hk := by cases hk

theorem Kept.absent (hv : Kept n home table full)
    (hother : ∀ j < i, table (slot n (home k) j) ≠ some k)
    (hend : i = n ∨ ¬ full (slot n (home k) i)) : ∀ p < n, table p ≠ some k := by
  intro p hp hk
  obtain ⟨j, hj, rfl, hfull⟩ := hv.reach p hp k hk
  have hij : i ≤ j := by
    by_contra hlt
    exact hother j (by omega) hk
  rcases hend with rfl | hempty
  · omega
  · rcases Nat.eq_or_lt_of_le hij with rfl | hlt
    · exact hempty (hv.isFull _ hp k hk)
    · exact hempty (hfull i hlt)

/-- A key that is in no slot is put where its probe has come over full slots, be there another key or
not. -/
theorem Kept.insert (hv : Kept n home table full) (habsent : ∀ p < n, table p ≠ some k) (hi : i < n)
    (hover : ∀ j < i, full (slot n (home k) j)) (hnew : table' (slot n (home k) i) = some k)
    (hold : ∀ p, p ≠ slot n (home k) i → table' p = table p)
    (hfull : ∀ p, full p ∨ p = slot n (home k) i → full' p) : Kept n home table' full' := by
  have hcases : ∀ p, ∀ k', table' p = some k' →
      p = slot n (home k) i ∧ k' = k ∨ table p = some k' := by
    intro p k' hk'
    by_cases hp : p = slot n (home k) i
    · rw [hp, hnew] at hk'
      exact .inl ⟨hp, (Option.some.inj hk').symm⟩
    · rw [hold p hp] at hk'
      exact .inr hk'
  refine ⟨fun p hp k' hkp => ?_, fun p hp q hq k' hkp hkq => ?_, fun p hp k' hkp => ?_⟩
  · rcases hcases p k' hkp with ⟨hpe, -⟩ | htp
    · exact hfull p (.inr hpe)
    · exact hfull p (.inl (hv.isFull p hp k' htp))
  · rcases hcases p k' hkp with ⟨hpe, rfl⟩ | htp
    · rcases hcases q k' hkq with ⟨hqe, -⟩ | htq
      · rw [hpe, hqe]
      · exact absurd htq (habsent q hq)
    · rcases hcases q k' hkq with ⟨-, rfl⟩ | htq
      · exact absurd htp (habsent p hp)
      · exact hv.unique p hp q hq k' htp htq
  · rcases hcases p k' hkp with ⟨hpe, rfl⟩ | htp
    · exact ⟨i, hi, hpe, fun j hj => hfull _ (.inl (hover j hj))⟩
    · obtain ⟨j, hj, hpj, htj⟩ := hv.reach p hp k' htp
      exact ⟨j, hj, hpj, fun j' hj' => hfull _ (.inl (htj j' hj'))⟩

theorem Kept.remove (hv : Kept n home table full)
    (hold : ∀ p < n, ∀ k, table' p = some k → table p = some k)
    (hfull : ∀ p, full p → full' p) : Kept n home table' full' where
  isFull p hp k hk := hfull p (hv.isFull p hp k (hold p hp k hk))
  unique p hp q hq k hkp hkq := hv.unique p hp q hq k (hold p hp k hkp) (hold q hq k hkq)
  reach p hp k hk := by
    obtain ⟨i, hi, hpi, hover⟩ := hv.reach p hp k (hold p hp k hk)
    exact ⟨i, hi, hpi, fun j hj => hfull _ (hover j hj)⟩

/-! ## Tables in which every full slot has a key -/

/-- The first `i` slots that are probed have keys. -/
def Taken (n : Nat) (table : Nat → Option κ) (h i : Nat) : Prop :=
  ∀ j < i, (table (slot n h j)).isSome

/-- No key is in two slots, and every key is reached by its probe. -/
structure Valid (n : Nat) (home : κ → Nat) (table : Nat → Option κ) : Prop where
  unique : ∀ p < n, ∀ q < n, ∀ k, table p = some k → table q = some k → p = q
  reach : ∀ p < n, ∀ k, table p = some k →
    ∃ i < n, p = slot n (home k) i ∧ Taken n table (home k) i

theorem valid_empty (n : Nat) (home : κ → Nat) : Valid n home fun _ => none where
  unique := fun p _ q _ k hk => by cases hk
  reach := fun p _ k hk => by cases hk

theorem Valid.kept (hv : Valid n home table) : Kept n home table fun p => (table p).isSome where
  isFull p _ k hk := by
    rw [hk]
    rfl
  unique := hv.unique
  reach := hv.reach

theorem Valid.absent (hv : Valid n home table)
    (hother : ∀ j < i, table (slot n (home k) j) ≠ some k)
    (hend : i = n ∨ table (slot n (home k) i) = none) : ∀ p < n, table p ≠ some k := by
  refine hv.kept.absent hother (hend.imp id fun hnone => ?_)
  rw [hnone]
  exact Bool.false_ne_true

/-- A key that is in no slot is put where its probe has come without an empty slot, be there another
key or not. -/
theorem Valid.insert (hv : Valid n home table) (habsent : ∀ p < n, table p ≠ some k) (hi : i < n)
    (htaken : Taken n table (home k) i) :
    Valid n home (Function.update table (slot n (home k) i) (some k)) := by
  have hk : Kept n home (Function.update table (slot n (home k) i) (some k)) fun p =>
      (Function.update table (slot n (home k) i) (some k) p).isSome := by
    refine hv.kept.insert habsent hi htaken (Function.update_self ..)
      (fun p hp => Function.update_of_ne hp _ _) fun p hp => ?_
    by_cases hpi : p = slot n (home k) i
    · rw [hpi, Function.update_self]
      rfl
    · rw [Function.update_of_ne hpi]
      exact hp.resolve_right hpi
  exact ⟨hk.unique, hk.reach⟩

end Lib.Probing
