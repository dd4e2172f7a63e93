import UnifiedCache.Infra.Proofs.HeapRefinementProofs

/-!
# Proofs: the bounded heap as a filter

A heap that values are pushed to and then popped from holds those of the values that come last in
the order: what it gave away, a value that `Push` replaced or refused or one that `Pop` took out, is
behind none that it holds.
-/

open Lib.HeapOrder

namespace UnifiedCache.Infra.TopNHeap

variable {α : Type*} {cmp : α → α → Bool} {h h' : TopNHeap α} {l rest : List α}

/-- The heap holds the values of `l` but for those of `rest`, and no value it holds is before one of
those. -/
structure Keeps (cmp : α → α → Bool) (h : TopNHeap α) (l rest : List α) : Prop where
  inv : Inv cmp h
  split : (h.live ++ rest).Perm l
  last : ∀ x ∈ h.live, ∀ y ∈ rest, cmp x y = false

theorem keeps_new (cmp : α → α → Bool) (capacity : Nat) : Keeps cmp (new capacity) [] [] where
  inv := inv_new cmp capacity
  split := .refl _
  last x hx := by cases hx

/-- A full heap refuses a value that no value it holds is before. -/
theorem push_refused {v : α} (hfull : h.capacity ≤ h.idx.size)
    (hv : ∀ x ∈ h.live, cmp x v = false) : h.push cmp v = h := by
  by_cases h0 : h.capacity = 0
  · rw [push, if_pos h0]
  · cases hk : h.idx[0]? with
    | none =>
      have hnone := Array.getElem?_eq_none_iff.mp hk
      omega
    | some k =>
      cases he : h.val[k]? with
      | none => simp [push, h0, Nat.not_lt.mpr hfull, hk, he]
      | some e =>
        have hlive : e ∈ h.live :=
          List.mem_filterMap.mpr ⟨k, Array.mem_toList_iff.mpr (Array.mem_of_getElem? hk), he⟩
        rw [push_full v h0 (Nat.not_lt.mpr hfull) hk he, if_neg (by rw [hv e hlive]; simp)]

variable [IsStrictWeakOrder α fun a b => cmp a b = true]

theorem cmp_trans_false {a b c : α} (hab : cmp a b = false) (hbc : cmp b c = false) :
    cmp a c = false := by
  have h := not_lt_trans (r := fun a b => cmp a b = true) (a := a) (b := b) (c := c)
    (by simp [hab]) (by simp [hbc])
  simpa using h

/-- **A `Push`**: of the value and `Top` the one that is before the other goes. -/
theorem Keeps.push (hk : Keeps cmp h l rest) (hf : Filled h l) (v : α)
    (hsize : h.capacity ≤ h.idx.size → h.idx.size < 2 ^ 31) :
    ∃ rest', Keeps cmp (h.push cmp v) (l ++ [v]) rest' := by
  have hl : (v :: (h.live ++ rest)).Perm (l ++ [v]) :=
    (hk.split.cons v).trans (List.perm_append_singleton v l).symm
  by_cases hlt : h.idx.size < h.capacity
  · have hfree : h.idx.size ∉ h.idx.toList := by
      rw [hf.places.mem_iff, List.mem_range, hf.idx_size]
      exact Nat.lt_irrefl _
    obtain ⟨hi, hperm⟩ := hk.inv.push_add (v := v) hlt hfree
    -- only a full heap has given a value away
    have hrest : rest = [] := by
      have hlen := hk.split.length_eq
      rw [List.length_append, hk.inv.live_length, hf.idx_size] at hlen
      have hval := hf.size
      rw [hf.idx_size] at hlt
      exact List.length_eq_zero_iff.mp (by omega)
    subst hrest
    refine ⟨[], hi, (hperm.append_right []).trans hl, fun x _ y hy => by cases hy⟩
  · by_cases h0 : h.capacity = 0
    · have hlive : h.live = [] := by
        have hle := hk.inv.size_le
        have hlen := hk.inv.live_length
        exact List.length_eq_zero_iff.mp (by omega)
      have hpush : h.push cmp v = h := by rw [TopNHeap.push, if_pos h0]
      rw [hpush]
      refine ⟨v :: rest, hk.inv, ?_, fun x hx => ?_⟩
      · rw [hlive] at hl ⊢
        exact hl
      · rw [hlive] at hx
        cases hx
    · obtain ⟨hi, e, others, htop, hlive, hperm⟩ :=
        hk.inv.push_full (v := v) h0 hlt (hsize (by omega))
      have hbehind := (hk.inv.isTop htop).2
      have he : e ∈ h.live := by
        rw [hlive]
        exact List.mem_cons_self
      by_cases hv : cmp e v = true
      · rw [if_pos hv] at hperm
        have hve : cmp v e = false := by
          have := not_lt_of_lt (r := fun a b => cmp a b = true) hv
          simpa using this
        refine ⟨e :: rest, hi, ?_, fun x hx y hy => ?_⟩
        · refine (hperm.append_right _).trans (List.Perm.trans ?_ hl)
          rw [hlive]
          exact List.Perm.cons v List.perm_middle
        · have hxe : cmp x e = false := by
            rcases List.mem_cons.mp (hperm.mem_iff.mp hx) with rfl | hx
            · exact hve
            · refine hbehind x (Multiset.mem_coe.mpr ?_)
              rw [hlive]
              exact List.mem_cons_of_mem _ hx
          rcases List.mem_cons.mp hy with rfl | hy
          · exact hxe
          · exact cmp_trans_false hxe (hk.last e he y hy)
      · rw [if_neg hv] at hperm
        refine ⟨v :: rest, hi, ?_, fun x hx y hy => ?_⟩
        · exact (hperm.append_right _).trans (List.perm_middle.trans hl)
        · have hold : x ∈ h.live := hperm.mem_iff.mp hx
          rcases List.mem_cons.mp hy with rfl | hy
          · exact cmp_trans_false (hbehind x (Multiset.mem_coe.mpr hold)) (by simpa using hv)
          · exact hk.last x hold y hy

theorem keeps_foldl_fits (cmp : α → α → Bool) [IsStrictWeakOrder α fun a b => cmp a b = true]
    (capacity : Nat) (l : List α)
    (hsize : capacity % UInt32.size < 2 ^ 31 ∨ l.length ≤ capacity % UInt32.size) :
    ∃ rest, Keeps cmp (l.foldl (fun h v => h.push cmp v) (new capacity)) l rest := by
  induction l using List.reverseRecOn with
  | nil => exact ⟨[], keeps_new cmp capacity⟩
  | append_singleton l v ih =>
    rw [List.length_append, List.length_singleton] at hsize
    obtain ⟨rest, hk⟩ := ih (by omega)
    obtain ⟨hf, hcap⟩ := filled_foldl cmp capacity l
    rw [List.foldl_append, List.foldl_cons, List.foldl_nil]
    refine hk.push hf v fun hfull => ?_
    have hval := hf.size
    rw [hcap] at hval hfull
    rw [hf.idx_size] at hfull ⊢
    omega

/-- **Pushing a whole list**: the heap is small, or it is full of values that no later one replaces. -/
theorem keeps_foldl (cmp : α → α → Bool) [IsStrictWeakOrder α fun a b => cmp a b = true]
    (capacity : Nat) (l : List α)
    (hsize : capacity % UInt32.size < 2 ^ 31 ∨ ∀ x ∈ l.take (capacity % UInt32.size),
      ∀ y ∈ l.drop (capacity % UInt32.size), cmp x y = false) :
    ∃ rest, Keeps cmp (l.foldl (fun h v => h.push cmp v) (new capacity)) l rest := by
  rcases hsize with hsmall | hbehind
  · exact keeps_foldl_fits cmp capacity l (.inl hsmall)
  · generalize hn : capacity % UInt32.size = n at hbehind
    have hlen : (l.take n).length ≤ n := by rw [List.length_take]; exact Nat.min_le_left _ _
    obtain ⟨rest, hk⟩ := keeps_foldl_fits cmp capacity (l.take n) (.inr (hn ▸ hlen))
    obtain ⟨hf, hcap⟩ := filled_foldl cmp capacity (l.take n)
    have hl : l = l.take n ++ l.drop n := (List.take_append_drop n l).symm
    have hfoldl : l.foldl (fun h v => h.push cmp v) (new capacity) =
        (l.drop n).foldl (fun h v => h.push cmp v)
          ((l.take n).foldl (fun h v => h.push cmp v) (new capacity)) := by
      rw [← List.foldl_append, ← hl]
    rw [hfoldl]
    generalize (l.take n).foldl (fun h v => h.push cmp v) (new capacity) = heap at hk hf hcap
    have hkept : ∀ x ∈ heap.live, x ∈ l.take n :=
      fun x hx => hk.split.mem_iff.mp (List.mem_append_left _ hx)
    have hstay : ∀ later, later ⊆ l.drop n → later.foldl (fun h v => h.push cmp v) heap = heap := by
      intro later hlater
      induction later with
      | nil => rfl
      | cons v later ih =>
        obtain ⟨hv, hrest⟩ := List.cons_subset.mp hlater
        have hfull : heap.capacity ≤ heap.idx.size := by
          have hpos := List.length_pos_of_mem hv
          have hval := hf.size
          rw [List.length_drop] at hpos
          rw [List.length_take, hcap, hn] at hval
          rw [hf.idx_size, hcap, hn]
          omega
        rw [List.foldl_cons, push_refused hfull fun x hx => hbehind x (hkept x hx) v hv, ih hrest]
    rw [hstay _ (List.Subset.refl _)]
    refine ⟨rest ++ l.drop n, hk.inv, ?_, fun x hx y hy => ?_⟩
    · rw [← List.append_assoc]
      exact (hk.split.append_right _).trans (List.Perm.of_eq hl.symm)
    · rcases List.mem_append.mp hy with hy | hy
      · exact hk.last x hx y hy
      · exact hbehind x (hkept x hx) y hy

/-- **`Pop`** gives `Top` away. -/
theorem Keeps.pop (hk : Keeps cmp h l rest) (hp : h.pop cmp = some h')
    (hsize : h.idx.size ≤ 2 ^ 31) : ∃ rest', Keeps cmp h' l rest' := by
  obtain ⟨hi, -, e, htop, hperm⟩ := hk.inv.pop hp hsize
  refine ⟨e :: rest, hi, ?_, fun x hx y hy => ?_⟩
  · exact List.perm_middle.trans ((hperm.append_right rest).symm.trans hk.split)
  · have hold : x ∈ h.live := hperm.mem_iff.mpr (List.mem_cons_of_mem _ hx)
    rcases List.mem_cons.mp hy with rfl | hy
    · exact (hk.inv.isTop htop).2 x (Multiset.mem_coe.mpr hold)
    · exact hk.last x hold y hy

/-- **Popping `n` times.** -/
theorem Keeps.popN {n : Nat} (hk : Keeps cmp h l rest) (hp : h.popN cmp n = some h')
    (hsize : h.idx.size ≤ 2 ^ 31) : ∃ rest', Keeps cmp h' l rest' := by
  induction n generalizing h rest with
  | zero =>
    cases hp
    exact ⟨rest, hk⟩
  | succ n ih =>
    obtain ⟨h1, hpop, hpopN⟩ := Option.bind_eq_some_iff.mp hp
    obtain ⟨rest', hk'⟩ := hk.pop hpop hsize
    obtain ⟨-, k, -, hperm⟩ := pop_spec hpop
    have hlen := hperm.length_eq
    simp only [Array.length_toList, List.length_cons] at hlen
    exact ih hk' hpopN (by omega)

end UnifiedCache.Infra.TopNHeap
