import Mathlib.Algebra.BigOperators.Group.List.Basic
import Mathlib.Algebra.Order.Ring.Nat
import Mathlib.Data.List.GetD
import Mathlib.Tactic.Common

/-!
# Masks

A mask says of each element of a list whether it is kept. How many are kept before an element is the
place of that element among the kept ones. Where the elements come in rows of one width, a mask on the
rows keeps the elements at the places whose row is kept.
-/

namespace Lib.Masks

variable {α β : Type*} {l l' : List α} {m m' : List Bool}

/-- What a mask keeps of a list. -/
def keep (l : List α) (m : List Bool) : List α := ((l.zip m).filter Prod.snd).map Prod.fst

@[simp] theorem keep_nil (m : List Bool) : keep ([] : List α) m = [] := by
  unfold keep
  rw [List.zip_nil_left]
  rfl

@[simp] theorem keep_cons_true (x : α) (l : List α) (m : List Bool) :
    keep (x :: l) (true :: m) = x :: keep l m := rfl

@[simp] theorem keep_cons_false (x : α) (l : List α) (m : List Bool) :
    keep (x :: l) (false :: m) = keep l m := rfl

theorem keep_map (f : α → β) (l : List α) (m : List Bool) : keep (l.map f) m = (keep l m).map f := by
  unfold keep
  rw [List.zip_map_left, List.filter_map, List.map_map, List.map_map]
  rfl

theorem keep_append (h : l.length = m.length) : keep (l ++ l') (m ++ m') = keep l m ++ keep l' m' := by
  unfold keep
  rw [List.zip_append h, List.filter_append, List.map_append]

theorem length_keep (h : l.length = m.length) : (keep l m).length = m.count true := by
  unfold keep
  have hsnd : (l.zip m).map Prod.snd = m := List.map_snd_zip (Nat.le_of_eq h.symm)
  rw [List.length_map, ← List.countP_eq_length_filter]
  nth_rewrite 2 [← hsnd]
  rw [List.count_eq_countP, List.countP_map]
  apply List.countP_congr
  simp

theorem keep_replicate_true {n : Nat} (h : l.length = n) : keep l (List.replicate n true) = l := by
  induction l generalizing n with
  | nil => exact keep_nil _
  | cons x l ih =>
    rw [← h, List.length_cons, List.replicate_succ, keep_cons_true, ih rfl]

theorem keep_map_map (f : α → β) (p : α → Bool) (l : List α) :
    keep (l.map f) (l.map p) = (l.filter p).map f := by
  unfold keep
  rw [List.zip_map', List.filter_map, List.map_map]
  rfl

/-! ## Places -/

theorem map_getD_range (l : List α) (d : α) : (List.range l.length).map (l.getD · d) = l := by
  refine List.ext_getElem (by simp) fun i hi hi' => ?_
  rw [List.getElem_map, List.getElem_range, List.getD_eq_getElem _ _ hi']

theorem keep_range (m : List Bool) :
    keep (List.range m.length) m = (List.range m.length).filter (m.getD · false) := by
  have hkeep := keep_map_map id (m.getD · false) (List.range m.length)
  rwa [List.map_id, List.map_id, map_getD_range] at hkeep

theorem mem_keep_range {p : Nat} : p ∈ keep (List.range m.length) m ↔ m[p]? = some true := by
  rw [keep_range, List.mem_filter, List.mem_range, List.getD_eq_getElem?_getD]
  constructor
  · rintro ⟨hp, hm⟩
    rw [List.getElem?_eq_getElem hp] at hm ⊢
    exact congrArg some hm
  · intro hm
    rw [hm]
    exact ⟨(List.getElem?_eq_some_iff.mp hm).1, rfl⟩

/-- **The place of a kept element** among the kept ones is the number of those before it. -/
theorem getElem?_keep_range {p : Nat} (h : m[p]? = some true) :
    (keep (List.range m.length) m)[(m.take p).count true]? = some p := by
  obtain ⟨hp, hm⟩ := List.getElem?_eq_some_iff.mp h
  have hsplit : m = m.take p ++ true :: m.drop (p + 1) := by
    rw [← hm, ← List.drop_eq_getElem_cons hp, List.take_append_drop]
  have hrange : List.range m.length =
      List.range p ++ p :: List.range' (p + 1) (m.length - (p + 1)) := by
    rw [List.range_eq_range', List.range_eq_range', ← List.range'_succ]
    have happend := List.range'_append_1 (s := 0) (m := p) (n := m.length - (p + 1) + 1)
    rw [Nat.zero_add] at happend
    rw [happend]
    congr 1
    omega
  have hlen : (List.range p).length = (m.take p).length := by
    rw [List.length_range, List.length_take]
    omega
  have hkeep : keep (List.range m.length) m = keep (List.range p) (m.take p) ++
      p :: keep (List.range' (p + 1) (m.length - (p + 1))) (m.drop (p + 1)) := by
    rw [hrange, ← keep_cons_true, ← keep_append hlen, ← hsplit]
  rw [hkeep, ← length_keep hlen, List.getElem?_append_right (Nat.le_refl _), Nat.sub_self]
  rfl

/-! ## Rows -/

theorem take_drop_eq_map (d : α) {a w : Nat} (h : a + w ≤ l.length) :
    (l.drop a).take w = (List.range w).map fun i => l.getD (a + i) d := by
  refine List.ext_getElem ?_ fun i hi hi' => ?_
  · rw [List.length_take, List.length_drop, List.length_map, List.length_range]
    omega
  · rw [List.length_map, List.length_range] at hi'
    rw [List.getElem_take, List.getElem_drop, List.getElem_map, List.getElem_range,
      List.getD_eq_getElem _ _ (by omega)]

theorem flatMap_filter_rows {w : Nat} (f : Nat → Nat → α) (p : Nat → Bool) (n : Nat) :
    (((List.range n).filter p).flatMap fun j => (List.range w).map (f j)) =
      ((List.range (n * w)).filter fun t => p (t / w)).map fun t => f (t / w) (t % w) := by
  induction n with
  | zero =>
    rw [Nat.zero_mul]
    rfl
  | succ n ih =>
    have hdiv : ∀ i ∈ List.range w, (n * w + i) / w = n ∧ (n * w + i) % w = i := by
      intro i hi
      have hi := List.mem_range.mp hi
      have hw : 0 < w := Nat.lt_of_le_of_lt (Nat.zero_le i) hi
      rw [Nat.mul_comm, Nat.mul_add_div hw, Nat.mul_add_mod, Nat.div_eq_of_lt hi, Nat.mod_eq_of_lt hi]
      exact ⟨rfl, rfl⟩
    have hrow : (((List.range w).map (n * w + ·)).filter fun t => p (t / w)) =
        if p n then (List.range w).map (n * w + ·) else [] := by
      rw [List.filter_map]
      split_ifs with hp
      · rw [List.filter_eq_self.mpr]
        intro i hi
        show p ((n * w + i) / w) = true
        rw [(hdiv i hi).1, hp]
      · rw [List.filter_eq_nil_iff.mpr]
        · rfl
        · intro i hi
          show ¬p ((n * w + i) / w) = true
          rw [(hdiv i hi).1]
          exact hp
    rw [List.range_succ, List.filter_append, List.flatMap_append, ih, Nat.succ_mul, List.range_add,
      List.filter_append, List.map_append, hrow]
    congr 1
    by_cases hp : p n
    · rw [List.filter_cons_of_pos hp, if_pos hp, List.map_map, List.filter_nil, List.flatMap_singleton]
      refine List.map_congr_left fun i hi => ?_
      show f n i = f ((n * w + i) / w) ((n * w + i) % w)
      rw [(hdiv i hi).1, (hdiv i hi).2]
    · rw [List.filter_cons_of_neg hp, if_neg hp]
      rfl

/-- **A mask on rows** keeps the places of the rows it keeps. -/
theorem flatten_keep_rows {w : Nat} (f : Nat → Nat → α) (m : List Bool) :
    (keep ((List.range m.length).map fun j => (List.range w).map (f j)) m).flatten =
      ((List.range (m.length * w)).filter fun t => m.getD (t / w) false).map
        fun t => f (t / w) (t % w) := by
  rw [keep_map, keep_range, ← List.flatMap_def]
  exact flatMap_filter_rows f (m.getD · false) m.length

theorem length_filter_rows (m : List Bool) (w : Nat) :
    ((List.range (m.length * w)).filter fun t => m.getD (t / w) false).length = m.count true * w := by
  have hlen := congrArg List.length (flatten_keep_rows (w := w) (fun _ _ => ()) m)
  rw [List.length_map, keep_map, List.length_flatten, List.map_map] at hlen
  have hconst : (keep (List.range m.length) m).map
      (List.length ∘ fun _ => (List.range w).map fun _ => ()) =
      (keep (List.range m.length) m).map fun _ => w := by
    refine List.map_congr_left fun j _ => ?_
    show ((List.range w).map fun _ => ()).length = w
    rw [List.length_map, List.length_range]
  rw [hconst, List.map_const', List.sum_replicate_nat, length_keep List.length_range] at hlen
  exact hlen.symm

theorem flatten_zipWith_rows {w : Nat} (f : Nat → Nat → α) (g : Bool → α → β) (m : List Bool) :
    (List.zipWith (fun b row => row.map (g b)) m
        ((List.range m.length).map fun j => (List.range w).map (f j))).flatten =
      (List.range (m.length * w)).map fun t => g (m.getD (t / w) false) (f (t / w) (t % w)) := by
  have hall : ∀ n, (List.range n).filter (fun _ => true) = List.range n := fun n =>
    List.filter_eq_self.mpr fun _ _ => rfl
  have hrows := flatMap_filter_rows (w := w) (fun j i => g (m.getD j false) (f j i)) (fun _ => true)
    m.length
  rw [hall, hall] at hrows
  rw [← hrows, List.flatMap_def]
  congr 1
  nth_rewrite 1 [← map_getD_range m false]
  rw [List.zipWith_map, List.zipWith_self]
  refine List.map_congr_left fun j _ => ?_
  rw [List.map_map]
  rfl

/-! ## Stretches -/

variable {L : List (List α)} {j : Nat} {x : List α}

theorem drop_flatten (h : L[j]? = some x) :
    L.flatten.drop ((L.map List.length).take j).sum = x ++ (L.drop (j + 1)).flatten := by
  obtain ⟨hj, rfl⟩ := List.getElem?_eq_some_iff.mp h
  rw [List.drop_sum_flatten, List.drop_eq_getElem_cons hj, List.flatten_cons]

theorem getElem?_flatten (h : L[j]? = some x) {t : Nat} (ht : t < x.length) :
    L.flatten[((L.map List.length).take j).sum + t]? = x[t]? := by
  rw [← List.getElem?_drop, drop_flatten h, List.getElem?_append_left ht]

theorem take_drop_flatten (h : L[j]? = some x) :
    (L.flatten.drop ((L.map List.length).take j).sum).take x.length = x := by
  rw [drop_flatten h, List.take_append_length]

end Lib.Masks
