import UnifiedCache.Infra.TopNHeap
import Mathlib.Data.List.Perm.Subperm
import Mathlib.Data.List.Range

/-!
# Proofs: the bounded heap

The sifts only reorder the places of the values, so a heap that has only been pushed to holds some of
the pushed values, as many as fit, and taking them out again gives every one of them once.
-/

namespace UnifiedCache.Infra.TopNHeap

variable {α : Type*} {cmp : α → α → Bool}

/-! ## Sifting -/

theorem swapIfInBounds_perm (idx : Array Nat) (i j : Nat) :
    (idx.swapIfInBounds i j).Perm idx := by
  unfold Array.swapIfInBounds
  split
  · split
    · exact Array.swap_perm _ _
    · exact .refl _
  · exact .refl _

theorem siftUp_perm (cmp : α → α → Bool) (val : Array α) (fuel pos : Nat)
    (idx : Array Nat) :
    (siftUp cmp val fuel pos idx).Perm idx := by
  induction fuel generalizing pos idx with
  | zero => exact .refl _
  | succ fuel ih =>
    unfold siftUp
    split
    · exact .refl _
    · split
      · exact (ih _ _).trans (swapIfInBounds_perm _ _ _)
      · exact .refl _

theorem siftDown_perm (cmp : α → α → Bool) (val : Array α) (fuel pos : Nat)
    (idx : Array Nat) :
    (siftDown cmp val fuel pos idx).Perm idx := by
  induction fuel generalizing pos idx with
  | zero => exact .refl _
  | succ fuel ih =>
    have hbest : ∀ best, (if best = pos then idx else
        siftDown cmp val fuel best (idx.swapIfInBounds pos best)).Perm idx := by
      intro best
      split
      · exact .refl _
      · exact (ih _ _).trans (swapIfInBounds_perm _ _ _)
    unfold siftDown
    exact hbest _

/-! ## Filling a heap -/

/-- A heap after pushes only: every place of `val` is in `idx` once, and what it holds are some of the
values pushed. -/
structure Filled (h : TopNHeap α) (pushed : List α) : Prop where
  places : h.idx.toList.Perm (List.range h.val.size)
  size : h.val.size = min pushed.length h.capacity
  values : h.val.toList.Subperm pushed

theorem filled_new (capacity : Nat) : Filled (new capacity : TopNHeap α) [] where
  places := .refl _
  size := by simp [new]
  values := List.nil_subperm

variable {h : TopNHeap α}

theorem Filled.idx_size {pushed : List α} (hf : Filled h pushed) :
    h.idx.size = h.val.size := by
  have := hf.places.length_eq
  simpa using this

@[simp] theorem push_capacity (h : TopNHeap α) (v : α) : (h.push cmp v).capacity = h.capacity := by
  unfold push
  dsimp only
  split
  · rfl
  · split
    · rfl
    · split
      · rfl
      · split
        · rfl
        · split <;> rfl

/-- **A push into a heap that has only been pushed to.** -/
theorem Filled.push {pushed : List α} (hf : Filled h pushed) (v : α) :
    Filled (h.push cmp v) (pushed ++ [v]) := by
  have hsize := hf.size
  have hidx := hf.idx_size
  have hsub : pushed.Subperm (pushed ++ [v]) := (List.sublist_append_left _ _).subperm
  unfold TopNHeap.push
  dsimp only
  by_cases hzero : h.capacity = 0
  · rw [if_pos hzero]
    refine ⟨hf.places, ?_, hf.values.trans hsub⟩
    rw [hsize, hzero]
    simp
  · rw [if_neg hzero]
    by_cases hlt : h.idx.size < h.capacity
    · have hnot : ¬ h.idx.size < h.val.size := by omega
      simp only [if_pos hlt, if_neg hnot]
      refine ⟨?_, ?_, ?_⟩
      · have hperm := Array.perm_iff_toList_perm.mp (siftUp_perm cmp (h.val.push v) h.idx.size
          h.idx.size (h.idx.push h.idx.size))
        refine hperm.trans ?_
        rw [Array.toList_push, Array.size_push, List.range_succ, hidx]
        exact hf.places.append (.refl _)
      · change (h.val.push v).size = min (pushed ++ [v]).length h.capacity
        rw [Array.size_push, List.length_append, List.length_singleton]
        omega
      · rw [Array.toList_push]
        exact hf.values.append (List.Subperm.refl _)
    · rw [if_neg hlt]
      have hfull : h.val.size = h.capacity := by omega
      have hlen : h.val.size = min (pushed ++ [v]).length h.capacity := by
        rw [List.length_append, List.length_singleton]
        omega
      split
      · exact ⟨hf.places, hlen, hf.values.trans hsub⟩
      · rename_i top htop
        split
        · exact ⟨hf.places, hlen, hf.values.trans hsub⟩
        · rename_i old hold
          split
          · refine ⟨?_, ?_, ?_⟩
            · have hperm := Array.perm_iff_toList_perm.mp (siftDown_perm cmp
                (h.val.setIfInBounds top v) h.idx.size 0 h.idx)
              refine hperm.trans ?_
              rw [Array.size_setIfInBounds]
              exact hf.places
            · rw [Array.size_setIfInBounds]
              exact hlen
            · have htop : top < h.val.size := (Array.getElem?_eq_some_iff.mp hold).1
              rw [Array.toList_setIfInBounds]
              refine (List.set_perm_cons_eraseIdx (by simpa using htop) v).subperm.trans ?_
              have hrest := (List.eraseIdx_sublist h.val.toList top).subperm.trans hf.values
              exact ((List.subperm_cons v).mpr hrest).trans
                (List.perm_append_singleton v pushed).symm.subperm
          · exact ⟨hf.places, hlen, hf.values.trans hsub⟩

theorem filled_foldl (cmp : α → α → Bool) (capacity : Nat) (l : List α) :
    Filled (l.foldl (fun h v => h.push cmp v) (new capacity)) l ∧
      (l.foldl (fun h v => h.push cmp v) (new capacity)).capacity = capacity % UInt32.size := by
  induction l using List.reverseRecOn with
  | nil => exact ⟨filled_new capacity, rfl⟩
  | append_singleton l v ih =>
    rw [List.foldl_append, List.foldl_cons, List.foldl_nil]
    exact ⟨ih.1.push v, (push_capacity _ _).trans ih.2⟩

/-! ## Emptying a heap -/

/-- Every place in `idx` is one of `val`. -/
def Live (h : TopNHeap α) : Prop := ∀ k ∈ h.idx.toList, k < h.val.size

/-- **`Pop` takes out the place of `Top` and no other.** -/
theorem pop_spec {h' : TopNHeap α} (hp : h.pop cmp = some h') : h'.val = h.val ∧
    ∃ k, h.idx[0]? = some k ∧ h.idx.toList.Perm (k :: h'.idx.toList) := by
  obtain ⟨val, ⟨l⟩, capacity⟩ := h
  unfold pop at hp
  split at hp
  · cases hp
  · rename_i last hlast
    cases hp
    refine ⟨rfl, ?_⟩
    have hlast' : l.getLast? = some last := by simpa using hlast
    obtain ⟨m, rfl⟩ := List.getLast?_eq_some_iff.mp hlast'
    have hsift : ∀ idx : Array Nat, (if idx.size = 0 then idx else
        siftDown cmp val idx.size 0 idx).toList.Perm idx.toList := by
      intro idx
      split
      · exact .refl _
      · exact Array.perm_iff_toList_perm.mp (siftDown_perm _ _ _ _ _)
    cases m with
    | nil => exact ⟨last, rfl, ((hsift _).cons last).symm⟩
    | cons a m =>
      refine ⟨a, rfl, ?_⟩
      refine List.Perm.trans ?_ ((hsift _).cons a).symm
      have hidx : (((a :: m ++ [last]).toArray.setIfInBounds 0 last).pop).toList = last :: m := by
        have hset : (((a :: m ++ [last]).toArray.setIfInBounds 0 last).pop).toList =
            ((last :: m) ++ [last]).dropLast := by simp
        rw [hset, List.dropLast_concat]
      rw [hidx]
      exact (List.perm_append_singleton last m).cons a

theorem exists_pop (cmp : α → α → Bool) (hne : h.idx.size ≠ 0) :
    ∃ h', h.pop cmp = some h' := by
  unfold pop
  cases hb : h.idx.back? with
  | none =>
    rw [Array.back?_eq_none_iff] at hb
    rw [hb] at hne
    exact absurd rfl hne
  | some last => exact ⟨_, rfl⟩

/-- **Popping `n` times** leaves the values at some of the places, `n` fewer. -/
theorem popN_spec (cmp : α → α → Bool) {n : Nat} (hn : n ≤ h.idx.size) :
    ∃ h', h.popN cmp n = some h' ∧ h'.val = h.val ∧ h'.idx.size = h.idx.size - n ∧
      h'.idx.toList.Subperm h.idx.toList := by
  induction n generalizing h with
  | zero => exact ⟨h, rfl, rfl, rfl, List.Subperm.refl _⟩
  | succ n ih =>
    obtain ⟨h1, hpop⟩ := exists_pop cmp (h := h) (by omega)
    obtain ⟨hval, k, -, hperm⟩ := pop_spec hpop
    have hlen := hperm.length_eq
    simp only [Array.length_toList, List.length_cons] at hlen
    obtain ⟨h2, hpopN, hval', hsize, hsub⟩ := ih (h := h1) (by omega)
    refine ⟨h2, ?_, hval'.trans hval, by omega, ?_⟩
    · simp only [popN, hpop, Option.bind_some]
      exact hpopN
    · exact hsub.trans ((List.sublist_cons_self k _).subperm.trans hperm.symm.subperm)

/-- **Taking everything out** gives the values at all places. -/
theorem drain_perm (cmp : α → α → Bool) {fuel : Nat} (hl : h.Live) (hfuel : h.idx.size ≤ fuel) :
    (h.drain cmp fuel).Perm h.live := by
  induction fuel generalizing h with
  | zero =>
    have hnil : h.idx.toList = [] := List.length_eq_zero_iff.mp (by simpa using hfuel)
    rw [live, hnil]
    exact .refl _
  | succ fuel ih =>
    by_cases hzero : h.idx.size = 0
    · have hnil : h.idx.toList = [] := List.length_eq_zero_iff.mp (by simpa using hzero)
      have htop : h.top = none := by
        rw [top, Array.getElem?_eq_none (by omega)]
        rfl
      rw [live, hnil, drain, htop]
      exact .refl _
    · obtain ⟨h', hpop⟩ := exists_pop cmp (h := h) hzero
      obtain ⟨hval, k, hk, hperm⟩ := pop_spec hpop
      have hlen := hperm.length_eq
      simp only [Array.length_toList, List.length_cons] at hlen
      have hkval : k < h.val.size := hl k (hperm.mem_iff.mpr (by simp))
      have htop : h.top = some h.val[k] := by
        rw [top, hk, Option.bind_some, Array.getElem?_eq_getElem hkval]
      have hl' : h'.Live := by
        intro j hj
        rw [hval]
        exact hl j (hperm.mem_iff.mpr (List.mem_cons_of_mem _ hj))
      rw [drain, htop, hpop]
      refine ((ih hl' (by omega)).cons _).trans ?_
      have hlive : (h.val[k] :: h'.live) =
          (k :: h'.idx.toList).filterMap fun k => h.val[k]? := by
        rw [List.filterMap_cons, Array.getElem?_eq_getElem hkval, live, hval]
      rw [hlive]
      exact (hperm.filterMap _).symm

theorem filterMap_range_getElem? (l : List α) :
    ((List.range l.length).filterMap fun k => l[k]?) = l := by
  induction l using List.reverseRecOn with
  | nil => rfl
  | append_singleton l v ih =>
    rw [List.length_append, List.length_singleton, List.range_succ, List.filterMap_append]
    have hold : ((List.range l.length).filterMap fun k => (l ++ [v])[k]?) =
        (List.range l.length).filterMap fun k => l[k]? := by
      refine List.filterMap_congr fun k hk => ?_
      exact List.getElem?_append_left (List.mem_range.mp hk)
    rw [hold, ih]
    simp

theorem Live.length (hl : h.Live) : h.live.length = h.idx.size := by
  have hall : ∀ l : List Nat, (∀ k ∈ l, k < h.val.size) →
      (l.filterMap fun k => h.val[k]?).length = l.length := by
    intro l
    induction l with
    | nil => intro _; rfl
    | cons k l ih =>
      intro hk
      rw [List.filterMap_cons, Array.getElem?_eq_getElem (hk k (by simp))]
      simp [ih fun j hj => hk j (List.mem_cons_of_mem _ hj)]
  rw [live, hall _ hl, Array.length_toList]

theorem Filled.live_subperm {h' : TopNHeap α} {pushed : List α} (hf : Filled h pushed)
    (hval : h'.val = h.val) (hsub : h'.idx.toList.Subperm h.idx.toList) :
    h'.Live ∧ h'.live.Subperm pushed := by
  refine ⟨fun k hk => ?_, ?_⟩
  · rw [hval]
    exact List.mem_range.mp (hf.places.mem_iff.mp (hsub.subset hk))
  · obtain ⟨l, hperm, hsublist⟩ := hsub
    have hvals : ((List.range h.val.size).filterMap fun k => h.val[k]?) = h.val.toList := by
      simpa using filterMap_range_getElem? h.val.toList
    have h1 : h'.live.Perm (l.filterMap fun k => h.val[k]?) := by
      rw [live, hval]
      exact (hperm.filterMap _).symm
    have h2 : (l.filterMap fun k => h.val[k]?).Subperm h.val.toList := by
      refine (hsublist.filterMap _).subperm.trans ?_
      rw [← hvals]
      exact (hf.places.filterMap _).subperm
    exact h1.subperm.trans (h2.trans hf.values)

end UnifiedCache.Infra.TopNHeap
