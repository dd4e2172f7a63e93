import Mathlib.Data.List.Nodup
import Mathlib.Data.List.Perm.Basic
import Mathlib.Logic.Function.Basic

/-!
# Ledgers

Work items are issued in batches. A batch has a key of its own, and under the key a counter that is
set to the size of the batch and goes down by one with every item that is finished; until then the
item is held somewhere (a queue, a thread). A ledger is *balanced* when every item issued is held or
has been finished, once, and every counter is the number of items that are still held under its key.

The steps of a ledger move items around, issue a batch, or finish one item; all of them keep it
balanced. A program whose steps are steps of a ledger therefore never sees a counter at zero while
an item of the batch is held.
-/

namespace Lib

/-- Items `α` issued under keys `κ`. -/
structure Ledger (α κ : Type*) where
  /-- All items issued so far. -/
  issued : List α
  /-- The items that are still held somewhere. -/
  held : List α
  /-- The items finished, once for every time they were. -/
  finished : List α
  /-- What the counter of a key stands at. -/
  counter : κ → Nat

namespace Ledger

variable {α κ : Type*} [DecidableEq κ] {key : α → κ} {L L' : Ledger α κ}

/-- Every item is held or finished, once, and the counters count the items held. -/
structure Balanced (key : α → κ) (L : Ledger α κ) : Prop where
  /-- The account of the items. -/
  account : (L.held ++ L.finished).Perm L.issued
  /-- No item is issued twice. -/
  nodup : L.issued.Nodup
  /-- The counters. -/
  counter : ∀ k, L.counter k = L.held.countP fun a => key a = k

/-- What one step may do to a ledger. -/
inductive Step (key : α → κ) (L L' : Ledger α κ) : Prop where
  /-- Items move from one place to another. -/
  | move (hheld : L'.held.Perm L.held) (hissued : L'.issued = L.issued)
      (hfinished : L'.finished = L.finished) (hcounter : L'.counter = L.counter)
  /-- A batch is issued under a fresh key. -/
  | issue (k : κ) (items : List α) (hkey : ∀ a ∈ items, key a = k) (hnodup : items.Nodup)
      (hfresh : ∀ a ∈ L.issued, key a ≠ k) (hheld : L'.held.Perm (items ++ L.held))
      (hissued : L'.issued = L.issued ++ items) (hfinished : L'.finished = L.finished)
      (hcounter : L'.counter = Function.update L.counter k items.length)
  /-- One item is finished. -/
  | finish (a : α) (hheld : L.held.Perm (a :: L'.held)) (hissued : L'.issued = L.issued)
      (hfinished : L'.finished = a :: L.finished)
      (hcounter : L'.counter = Function.update L.counter (key a) (L.counter (key a) - 1))

theorem Balanced.issued_of_held (h : L.Balanced key) {a : α} (ha : a ∈ L.held) : a ∈ L.issued :=
  h.account.subset (List.mem_append_left _ ha)

theorem Balanced.held_nodup (h : L.Balanced key) : L.held.Nodup :=
  (List.nodup_append.mp (h.account.nodup_iff.mpr h.nodup)).1

theorem Balanced.not_finished (h : L.Balanced key) {a : α} (ha : a ∈ L.held) : a ∉ L.finished := by
  intro hfin
  exact (List.nodup_append.mp (h.account.nodup_iff.mpr h.nodup)).2.2 a ha a hfin rfl

theorem Balanced.countP_fresh (h : L.Balanced key) {k : κ} (hfresh : ∀ a ∈ L.issued, key a ≠ k) :
    (L.held.countP fun a => key a = k) = 0 := by
  rw [List.countP_eq_zero]
  intro a ha
  simpa using hfresh a (h.issued_of_held ha)

theorem Step.balanced (hs : Step key L L') (h : L.Balanced key) : L'.Balanced key := by
  rcases hs with ⟨hheld, hissued, hfinished, hcounter⟩ |
    ⟨k, items, hkey, hnodup, hfresh, hheld, hissued, hfinished, hcounter⟩ |
    ⟨a, hheld, hissued, hfinished, hcounter⟩
  · refine ⟨?_, hissued ▸ h.nodup, fun k => ?_⟩
    · rw [hissued, hfinished]
      exact (hheld.append_right _).trans h.account
    · rw [hcounter, h.counter k, hheld.countP_eq]
  · refine ⟨?_, ?_, fun k' => ?_⟩
    · rw [hissued, hfinished]
      have hperm : (L'.held ++ L.finished).Perm (items ++ L.issued) := by
        refine (hheld.append_right _).trans ?_
        rw [List.append_assoc]
        exact h.account.append_left _
      exact hperm.trans List.perm_append_comm
    · rw [hissued]
      refine List.nodup_append.mpr ⟨h.nodup, hnodup, ?_⟩
      rintro a ha b hb rfl
      exact hfresh a ha (hkey a hb)
    · rw [hcounter, hheld.countP_eq, List.countP_append]
      by_cases hk : k' = k
      · subst hk
        have hall : (items.countP fun a => key a = k') = items.length := by
          rw [List.countP_eq_length]
          simpa using hkey
        have hnone := h.countP_fresh hfresh
        rw [Function.update_self]
        omega
      · have hnone : (items.countP fun a => key a = k') = 0 := by
          rw [List.countP_eq_zero]
          intro a ha
          have hne : key a ≠ k' := by rw [hkey a ha]; exact Ne.symm hk
          simpa using hne
        rw [Function.update_of_ne hk, h.counter k']
        omega
  · refine ⟨?_, hissued ▸ h.nodup, fun k => ?_⟩
    · rw [hissued, hfinished]
      have hperm : (L'.held ++ a :: L.finished).Perm (L.held ++ L.finished) :=
        List.perm_middle.trans ((hheld.append_right L.finished).symm)
      exact hperm.trans h.account
    · have hcount := hheld.countP_eq fun a => decide (key a = k)
      rw [List.countP_cons] at hcount
      rw [hcounter]
      by_cases hk : k = key a
      · subst hk
        simp only [decide_true, if_true] at hcount
        rw [Function.update_self, h.counter (key a)]
        omega
      · have hne : ¬key a = k := fun h => hk h.symm
        simp only [hne, decide_false, Bool.false_eq_true, if_false] at hcount
        rw [Function.update_of_ne hk, h.counter k]
        omega

theorem Balanced.not_held_of_counter (h : L.Balanced key) {k : κ} (hk : L.counter k = 0) :
    ∀ a, key a = k → a ∉ L.held := by
  intro a ha hheld
  rw [h.counter k, List.countP_eq_zero] at hk
  simpa [ha] using hk a hheld

theorem Balanced.count_finished [DecidableEq α] (h : L.Balanced key) {a : α} (ha : a ∈ L.issued) :
    L.finished.count a = if a ∈ L.held then 0 else 1 := by
  have hcount := h.account.count_eq a
  rw [List.count_append, List.count_eq_one_of_mem h.nodup ha] at hcount
  split_ifs with hheld
  · have := List.count_pos_iff.mpr hheld
    omega
  · have := List.count_eq_zero_of_not_mem hheld
    omega

theorem Step.counter_zero (hs : Step key L L') {a : α} (ha : a ∈ L.issued)
    (h : L.counter (key a) = 0) : L'.counter (key a) = 0 := by
  rcases hs with ⟨-, -, -, hcounter⟩ | ⟨k, items, -, -, hfresh, -, -, -, hcounter⟩ |
    ⟨b, -, -, -, hcounter⟩
  · rw [hcounter, h]
  · rw [hcounter, Function.update_of_ne (hfresh a ha), h]
  · rw [hcounter]
    by_cases hk : key a = key b
    · rw [hk, Function.update_self, ← hk, h]
    · rw [Function.update_of_ne hk, h]

theorem Step.finished_subset (hs : Step key L L') : L.finished ⊆ L'.finished := by
  rcases hs with ⟨-, -, hfinished, -⟩ | ⟨-, -, -, -, -, -, -, hfinished, -⟩ | ⟨a, -, -, hfinished, -⟩
  · rw [hfinished]
    exact List.Subset.refl _
  · rw [hfinished]
    exact List.Subset.refl _
  · rw [hfinished]
    exact List.subset_cons_self a _

/-! ## Items held by the members of a list -/

section Places

variable {β : Type*} {l : List β} {i : Nat} {b : β}

theorem flatMap_set (h : l[i]? = some b) (f : β → List α) (b' : β) :
    (f b ++ (l.set i b').flatMap f).Perm (f b' ++ l.flatMap f) := by
  obtain ⟨hi, hb⟩ := List.getElem?_eq_some_iff.mp h
  have hnew : ((l.set i b').flatMap f).Perm (f b' ++ (l.eraseIdx i).flatMap f) :=
    (List.set_perm_cons_eraseIdx hi b').flatMap_right f
  have hold : (l.flatMap f).Perm (f b ++ (l.eraseIdx i).flatMap f) := by
    have := (List.getElem_cons_eraseIdx_perm hi).symm.flatMap_right f
    rwa [hb] at this
  refine (hnew.append_left _).trans (List.Perm.trans ?_ (hold.append_left _).symm)
  rw [← List.append_assoc, ← List.append_assoc]
  exact List.perm_append_comm.append_right _

end Places

end Ledger

end Lib
