import UnifiedCache.Infra.Proofs.TopNHeapProofs
import UnifiedCache.Lib.HeapOrder
import Mathlib.Data.List.Nodup

/-!
# Proofs: the bounded heap as a bounded multiset

The sifts restore heap order (`Lib.HeapOrder`) over the values that `idx` leads to. As long as `idx`
is injective, a `Push` writes a slot no other entry leads to, so the multiset of live values changes
as it should.
-/

open Lib.HeapOrder

namespace UnifiedCache.Infra.TopNHeap

variable {α : Type*} {cmp : α → α → Bool}

/-! ## The sequence of values -/

/-- The value at a position of the heap, `d` behind its end. -/
def key (d : α) (val : Array α) (idx : Array Nat) (i : Nat) : α :=
  (idx[i]?.bind fun k => val[k]?).getD d

/-- Every entry leads to a slot. -/
def Leads (val : Array α) (idx : Array Nat) : Prop := ∀ k ∈ idx.toList, k < val.size

variable {val : Array α} {idx : Array Nat}

theorem Leads.lt (h : Leads val idx) {i : Nat} (hi : i < idx.size) : idx[i] < val.size :=
  h _ (Array.getElem_mem_toList hi)

theorem Leads.perm {idx' : Array Nat} (h : Leads val idx) (hp : idx'.Perm idx) : Leads val idx' :=
  fun k hk => h k ((Array.perm_iff_toList_perm.mp hp).mem_iff.mp hk)

theorem Leads.lookup (h : Leads val idx) (d : α) {i : Nat} (hi : i < idx.size) :
    (idx[i]?.bind fun k => val[k]?) = some (key d val idx i) := by
  have hlt := h.lt hi
  simp [key, hi, hlt]

theorem before_eq (h : Leads val idx) (d : α) {i j : Nat} (hi : i < idx.size) (hj : j < idx.size) :
    before cmp val idx i j = cmp (key d val idx i) (key d val idx j) := by
  unfold before
  rw [h.lookup d hi, h.lookup d hj]

theorem key_swap (d : α) (val : Array α) {i j : Nat} (hi : i < idx.size) (hj : j < idx.size) :
    key d val (idx.swapIfInBounds i j) = swapAt (key d val idx) i j := by
  funext k
  unfold Array.swapIfInBounds
  rw [dif_pos hi, dif_pos hj]
  unfold key swapAt
  rw [Array.getElem?_swap]
  by_cases hki : k = i
  · subst hki
    by_cases hkj : j = k
    · subst hkj
      simp [hi]
    · simp [hj, hkj]
  · by_cases hkj : k = j
    · subst hkj
      simp [hi, hki]
    · simp [hki, hkj, Ne.symm hki, Ne.symm hkj]

/-! ## The sifts restore the order -/

section Sift

variable [IsStrictWeakOrder α fun a b => cmp a b = true]

theorem siftUp_ordered (d : α) {fuel pos : Nat} (hl : Leads val idx) (hpos : pos < idx.size)
    (hfuel : pos ≤ fuel) (h : UpOrder (fun a b => cmp a b = true) idx.size (key d val idx) pos) :
    Ordered (fun a b => cmp a b = true) idx.size (key d val (siftUp cmp val fuel pos idx)) := by
  induction fuel generalizing pos idx with
  | zero => exact h.done (by omega)
  | succ fuel ih =>
    unfold siftUp
    by_cases h0 : pos = 0
    · rw [if_pos h0]
      exact h.done (by omega)
    · rw [if_neg h0, before_eq hl d hpos (by omega)]
      by_cases hlt : cmp (key d val idx pos) (key d val idx ((pos - 1) / 2)) = true
      · rw [if_pos hlt]
        have hup := h.swap (by omega) hpos hlt
        rw [← key_swap d val hpos (by omega)] at hup
        have hsize : (idx.swapIfInBounds pos ((pos - 1) / 2)).size = idx.size :=
          Array.size_swapIfInBounds
        rw [← hsize] at hup ⊢
        exact ih (hl.perm (swapIfInBounds_perm ..)) (by omega) (by omega) hup
      · rw [if_neg hlt]
        exact h.done fun _ => hlt

theorem siftDown_ordered (d : α) {fuel pos : Nat} (hl : Leads val idx) (hsize : idx.size < 2 ^ 31)
    (hpos : pos < idx.size) (hfuel : idx.size ≤ pos + fuel)
    (h : DownOrder (fun a b => cmp a b = true) idx.size (key d val idx) pos) :
    Ordered (fun a b => cmp a b = true) idx.size (key d val (siftDown cmp val fuel pos idx)) := by
  induction fuel generalizing pos idx with
  | zero => omega
  | succ fuel ih =>
    have hleft : left pos = 2 * pos + 1 := Nat.mod_eq_of_lt (by unfold UInt32.size; omega)
    have hright : right pos = 2 * pos + 2 := Nat.mod_eq_of_lt (by unfold UInt32.size; omega)
    have hchild : ∀ i, 0 < i → (i - 1) / 2 = pos → i = left pos ∨ i = right pos := by
      intro i hi hp
      rw [hleft, hright]
      omega
    -- moving to a child that no child is before
    have hmove : ∀ c, 0 < c → c < idx.size → (c - 1) / 2 = pos →
        cmp (key d val idx c) (key d val idx pos) = true →
        (∀ i, 0 < i → i < idx.size → (i - 1) / 2 = pos →
          ¬ cmp (key d val idx i) (key d val idx c) = true) →
        Ordered (fun a b => cmp a b = true) idx.size
          (key d val (if c = pos then idx else
            siftDown cmp val fuel c (idx.swapIfInBounds pos c))) := by
      intro c hc0 hc hcp hlt hmin
      rw [if_neg (by omega)]
      have hdown := h.swap hc0 hc hcp hlt hmin
      rw [← key_swap d val hpos hc] at hdown
      have hswap : (idx.swapIfInBounds pos c).size = idx.size := Array.size_swapIfInBounds
      rw [← hswap] at hdown ⊢
      exact ih (hl.perm (swapIfInBounds_perm ..)) (by omega) (by omega) (by omega) hdown
    unfold siftDown
    dsimp only
    by_cases hL : left pos < idx.size ∧ before cmp val idx (left pos) pos = true
    · rw [if_pos hL]
      have hLlt := hL.2
      rw [before_eq hl d hL.1 hpos] at hLlt
      by_cases hR : right pos < idx.size ∧ before cmp val idx (right pos) (left pos) = true
      · rw [if_pos hR]
        have hRlt := hR.2
        rw [before_eq hl d hR.1 hL.1] at hRlt
        refine hmove _ (by omega) hR.1 (by omega)
          (IsTrans.trans (r := fun a b => cmp a b = true) _ _ _ hRlt hLlt) ?_
        intro i hi0 hi hp
        rcases hchild i hi0 hp with rfl | rfl
        · exact not_lt_of_lt (r := fun a b => cmp a b = true) hRlt
        · exact Std.Irrefl.irrefl (r := fun a b => cmp a b = true) _
      · rw [if_neg hR]
        refine hmove _ (by omega) hL.1 (by omega) hLlt ?_
        intro i hi0 hi hp
        rcases hchild i hi0 hp with rfl | rfl
        · exact Std.Irrefl.irrefl (r := fun a b => cmp a b = true) _
        · intro hlt
          exact hR ⟨hi, (before_eq hl d hi hL.1).trans hlt⟩
    · rw [if_neg hL]
      have hLnot : left pos < idx.size → ¬ cmp (key d val idx (left pos)) (key d val idx pos) := by
        intro hi hlt
        exact hL ⟨hi, (before_eq hl d hi hpos).trans hlt⟩
      by_cases hR : right pos < idx.size ∧ before cmp val idx (right pos) pos = true
      · rw [if_pos hR]
        have hRlt := hR.2
        rw [before_eq hl d hR.1 hpos] at hRlt
        refine hmove _ (by omega) hR.1 (by omega) hRlt ?_
        intro i hi0 hi hp
        rcases hchild i hi0 hp with rfl | rfl
        · exact not_lt_trans (r := fun a b => cmp a b = true) (hLnot hi)
            (not_lt_of_lt (r := fun a b => cmp a b = true) hRlt)
        · exact Std.Irrefl.irrefl (r := fun a b => cmp a b = true) _
      · rw [if_neg hR, if_pos rfl]
        refine h.done fun i hi0 hi hp => ?_
        rcases hchild i hi0 hp with rfl | rfl
        · exact hLnot hi
        · intro hlt
          exact hR ⟨hi, (before_eq hl d hi hpos).trans hlt⟩

end Sift

/-! ## What sound operations keep -/

/-- Every entry leads to a slot of its own, and the values are in heap order. -/
structure Inv (cmp : α → α → Bool) (h : TopNHeap α) : Prop where
  leads : Leads h.val h.idx
  nodup : h.idx.toList.Nodup
  size_le : h.idx.size ≤ h.capacity
  ordered : ∀ d, Ordered (fun a b => cmp a b = true) h.idx.size (key d h.val h.idx)

theorem inv_new (cmp : α → α → Bool) (capacity : Nat) : Inv cmp (new capacity) where
  leads k hk := by cases hk
  nodup := .nil
  size_le := Nat.zero_le _
  ordered d i h0 hi := absurd hi (Nat.not_lt_zero i)

theorem inv_clear (cmp : α → α → Bool) (h : TopNHeap α) : Inv cmp h.clear where
  leads k hk := by cases hk
  nodup := .nil
  size_le := Nat.zero_le _
  ordered d i h0 hi := absurd hi (Nat.not_lt_zero i)

variable {h : TopNHeap α}

theorem Inv.size_le_val (hi : Inv cmp h) : h.idx.size ≤ h.val.size := by
  have hsub : h.idx.toList ⊆ List.range h.val.size :=
    fun k hk => List.mem_range.mpr (hi.leads k hk)
  have hlen := (hi.nodup.subperm hsub).length_le
  rwa [List.length_range, Array.length_toList] at hlen

theorem Inv.live_length (hi : Inv cmp h) : h.live.length = h.idx.size :=
  Live.length hi.leads

theorem Inv.root (hi : Inv cmp h) (hne : h.idx.size ≠ 0) :
    ∃ k e rest, h.idx.toList = k :: rest ∧ h.val[k]? = some e ∧ h.top = some e ∧
      h.live = e :: rest.filterMap fun k => h.val[k]? := by
  obtain ⟨k, rest, hk⟩ : ∃ k rest, h.idx.toList = k :: rest := by
    refine List.exists_cons_of_ne_nil fun hnil => hne ?_
    rw [← Array.length_toList, hnil, List.length_nil]
  have hlt : k < h.val.size := hi.leads k (by rw [hk]; exact List.mem_cons_self)
  have hval : h.val[k]? = some h.val[k] := Array.getElem?_eq_getElem hlt
  refine ⟨k, h.val[k], rest, hk, hval, ?_, ?_⟩
  · have h0 : h.idx[0]? = some k := by
      rw [← Array.getElem?_toList, hk]
      rfl
    rw [top, h0, Option.bind_some, hval]
  · rw [live, hk, List.filterMap_cons, hval]

theorem top_eq_key {e : α} (htop : h.top = some e) (d : α) :
    key d h.val h.idx 0 = e := by
  unfold key
  unfold top at htop
  rw [htop]
  rfl

theorem Inv.mem_live (hi : Inv cmp h) (d : α) {x : α} (hx : x ∈ h.live) :
    ∃ i, i < h.idx.size ∧ x = key d h.val h.idx i := by
  obtain ⟨k, hk, hval⟩ := List.mem_filterMap.mp hx
  obtain ⟨i, hlt, rfl⟩ := List.mem_iff_getElem.mp hk
  rw [Array.length_toList] at hlt
  refine ⟨i, hlt, ?_⟩
  have hkey := hi.leads.lookup d hlt
  rw [Array.getElem?_eq_getElem hlt, Option.bind_some] at hkey
  rw [Array.getElem_toList, hkey] at hval
  exact (Option.some.inj hval).symm

section Order

variable [IsStrictWeakOrder α fun a b => cmp a b = true]

theorem Inv.isTop (hi : Inv cmp h) {e : α} (htop : h.top = some e) :
    IsTop cmp ↑h.live e := by
  have hne : h.idx.size ≠ 0 := by
    intro h0
    rw [top, Array.getElem?_eq_none (by omega)] at htop
    cases htop
  refine ⟨?_, fun x hx => ?_⟩
  · obtain ⟨k, e', rest, -, -, htop', hlive⟩ := hi.root hne
    rw [htop'] at htop
    cases htop
    rw [hlive]
    exact Multiset.mem_coe.mpr List.mem_cons_self
  · obtain ⟨i, hlt, rfl⟩ := hi.mem_live e (Multiset.mem_coe.mp hx)
    have hroot := (hi.ordered e).root hlt
    rw [top_eq_key htop] at hroot
    exact Bool.not_eq_true _ ▸ hroot

theorem stored_slot {n : Nat} (hn : n ≤ val.size) (v : α) :
    (if n < val.size then val.setIfInBounds n v else val.push v)[n]? = some v ∧
      (∀ k, k ≠ n → (if n < val.size then val.setIfInBounds n v else val.push v)[k]? = val[k]?) ∧
      val.size ≤ (if n < val.size then val.setIfInBounds n v else val.push v).size ∧
      n < (if n < val.size then val.setIfInBounds n v else val.push v).size := by
  by_cases hlt : n < val.size
  · simp only [if_pos hlt]
    refine ⟨?_, fun k hk => ?_, ?_, ?_⟩
    · simp [hlt]
    · simp [hk.symm]
    · simp
    · simpa using hlt
  · simp only [if_neg hlt]
    have heq : n = val.size := by omega
    subst heq
    refine ⟨by simp, fun k hk => ?_, by simp, by simp⟩
    rw [Array.getElem?_push, if_neg hk]

omit [IsStrictWeakOrder α fun a b => cmp a b = true] in
theorem push_add (h : TopNHeap α) (v : α) (hlt : h.idx.size < h.capacity) :
    h.push cmp v = { h with
      val := if h.idx.size < h.val.size then h.val.setIfInBounds h.idx.size v else h.val.push v
      idx := siftUp cmp
        (if h.idx.size < h.val.size then h.val.setIfInBounds h.idx.size v else h.val.push v)
        h.idx.size h.idx.size (h.idx.push h.idx.size) } := by
  unfold push
  dsimp only
  rw [if_neg (by omega), if_pos hlt]

/-- **A `Push` into a free slot** adds the value. -/
theorem Inv.push_add (hi : Inv cmp h) {v : α} (hlt : h.idx.size < h.capacity)
    (hfree : h.idx.size ∉ h.idx.toList) :
    Inv cmp (h.push cmp v) ∧ (h.push cmp v).live.Perm (v :: h.live) := by
  rw [TopNHeap.push_add h v hlt]
  obtain ⟨hnew, hold, hle, hin⟩ := stored_slot hi.size_le_val v
  generalize (if h.idx.size < h.val.size then h.val.setIfInBounds h.idx.size v else h.val.push v) =
    val at hnew hold hle hin
  have hleads : Leads val (h.idx.push h.idx.size) := by
    intro k hk
    rw [Array.toList_push, List.mem_append, List.mem_singleton] at hk
    rcases hk with hk | rfl
    · have := hi.leads k hk
      omega
    · exact hin
  have hperm := siftUp_perm cmp val h.idx.size h.idx.size (h.idx.push h.idx.size)
  have hpermL := Array.perm_iff_toList_perm.mp hperm
  have hsize : (siftUp cmp val h.idx.size h.idx.size (h.idx.push h.idx.size)).size =
      h.idx.size + 1 := by
    rw [hperm.size_eq, Array.size_push]
  refine ⟨⟨hleads.perm hperm, ?_, ?_, fun d => ?_⟩, ?_⟩
  · rw [hpermL.nodup_iff, Array.toList_push]
    refine List.nodup_append.mpr ⟨hi.nodup, by simp, ?_⟩
    intro a ha b hb heq
    rw [List.mem_singleton.mp hb] at heq
    exact hfree (heq ▸ ha)
  · change (siftUp cmp val _ _ _).size ≤ h.capacity
    rw [hsize]
    exact hlt
  · change Ordered _ (siftUp cmp val _ _ _).size _
    rw [hsize]
    have hkey : ∀ i, i < h.idx.size →
        key d val (h.idx.push h.idx.size) i = key d h.val h.idx i := by
      intro i hlt'
      unfold key
      rw [Array.getElem?_push, if_neg (by omega), Array.getElem?_eq_getElem hlt',
        Option.bind_some, Option.bind_some, hold]
      intro heq
      exact hfree (heq ▸ Array.getElem_mem_toList hlt')
    have hup := (hi.ordered d).push hkey
    have hps : (h.idx.push h.idx.size).size = h.idx.size + 1 := Array.size_push _
    rw [← hps] at hup ⊢
    exact siftUp_ordered d hleads (by omega) (Nat.le_refl _) hup
  · have hvals : ((h.idx.push h.idx.size).toList.filterMap fun k => val[k]?) = h.live ++ [v] := by
      rw [Array.toList_push, List.filterMap_append, live]
      congr 1
      · refine List.filterMap_congr fun k hk => hold k ?_
        rintro rfl
        exact hfree hk
      · rw [List.filterMap_cons, hnew, List.filterMap_nil]
    refine List.Perm.trans (hpermL.filterMap _) ?_
    rw [hvals]
    exact List.perm_append_singleton v h.live

omit [IsStrictWeakOrder α fun a b => cmp a b = true] in
theorem push_full {k : Nat} {e : α} (v : α) (hcap : h.capacity ≠ 0)
    (hfull : ¬ h.idx.size < h.capacity) (hk : h.idx[0]? = some k) (he : h.val[k]? = some e) :
    h.push cmp v = if cmp e v = true then { h with
      val := h.val.setIfInBounds k v
      idx := siftDown cmp (h.val.setIfInBounds k v) h.idx.size 0 h.idx } else h := by
  unfold push
  dsimp only
  rw [if_neg hcap, if_neg hfull, hk]
  dsimp only
  rw [he]

/-- **A `Push` into a full heap** puts the value in the place of `Top` if that is before it. -/
theorem Inv.push_full (hi : Inv cmp h) {v : α} (hcap : h.capacity ≠ 0)
    (hfull : ¬ h.idx.size < h.capacity) (hsize : h.idx.size < 2 ^ 31) :
    Inv cmp (h.push cmp v) ∧ ∃ e rest, h.top = some e ∧ h.live = e :: rest ∧
      (h.push cmp v).live.Perm (if cmp e v = true then v :: rest else h.live) := by
  obtain ⟨k, e, rest, hlist, he, htop, hlive⟩ := hi.root (by omega)
  have hk : h.idx[0]? = some k := by
    rw [← Array.getElem?_toList, hlist]
    rfl
  have hpos : 0 < h.idx.size := by omega
  have hk0 : h.idx[0] = k := by
    rw [Array.getElem?_eq_getElem hpos] at hk
    exact Option.some.inj hk
  rw [TopNHeap.push_full v hcap hfull hk he]
  by_cases hv : cmp e v = true
  · rw [if_pos hv]
    have hkval : k < h.val.size := hi.leads k (by rw [hlist]; exact List.mem_cons_self)
    have hleads : Leads (h.val.setIfInBounds k v) h.idx := by
      intro j hj
      rw [Array.size_setIfInBounds]
      exact hi.leads j hj
    have hperm := siftDown_perm cmp (h.val.setIfInBounds k v) h.idx.size 0 h.idx
    have hpermL := Array.perm_iff_toList_perm.mp hperm
    have hnodup := hi.nodup
    refine ⟨⟨hleads.perm hperm, hpermL.nodup_iff.mpr hnodup, ?_, fun d => ?_⟩, e, _, htop, hlive, ?_⟩
    · change (siftDown cmp _ _ _ _).size ≤ h.capacity
      rw [hperm.size_eq]
      exact hi.size_le
    · change Ordered _ (siftDown cmp _ _ _ _).size _
      rw [hperm.size_eq]
      refine siftDown_ordered d hleads hsize hpos (by omega) ((hi.ordered d).replace ?_)
      intro i h0 hlt
      unfold key
      rw [Array.getElem?_eq_getElem hlt, Option.bind_some, Option.bind_some,
        Array.getElem?_setIfInBounds, if_neg]
      intro heq
      have h0l : 0 < h.idx.toList.length := by simpa using hpos
      have hil : i < h.idx.toList.length := by simpa using hlt
      have hinj : h.idx.toList[0] = h.idx.toList[i] := by
        rw [Array.getElem_toList, Array.getElem_toList, hk0]
        exact heq
      have := hnodup.getElem_inj_iff.mp hinj
      omega
    · rw [if_pos hv]
      refine List.Perm.trans (hpermL.filterMap _) ?_
      rw [hlist, List.filterMap_cons, Array.getElem?_setIfInBounds, if_pos rfl, if_pos hkval]
      refine (List.Perm.refl _).cons v |>.trans (.of_eq ?_)
      congr 1
      refine List.filterMap_congr fun j hj => ?_
      rw [Array.getElem?_setIfInBounds, if_neg]
      rintro rfl
      rw [hlist] at hnodup
      exact (List.nodup_cons.mp hnodup).1 hj
  · rw [if_neg hv]
    refine ⟨hi, e, _, htop, hlive, ?_⟩
    rw [if_neg hv]

/-- **`Pop`** removes `Top`. -/
theorem Inv.pop {h' : TopNHeap α} (hi : Inv cmp h) (hp : h.pop cmp = some h')
    (hsize : h.idx.size ≤ 2 ^ 31) :
    Inv cmp h' ∧ h'.capacity = h.capacity ∧ ∃ e, h.top = some e ∧ h.live.Perm (e :: h'.live) := by
  obtain ⟨hval, k, hk, hperm⟩ := pop_spec hp
  have hlen := hperm.length_eq
  simp only [Array.length_toList, List.length_cons] at hlen
  have hnodup := hperm.nodup_iff.mp hi.nodup
  have hleads : Leads h'.val h'.idx := by
    intro j hj
    rw [hval]
    exact hi.leads j (hperm.mem_iff.mpr (List.mem_cons_of_mem _ hj))
  have hkval : k < h.val.size := hi.leads k (hperm.mem_iff.mpr List.mem_cons_self)
  unfold TopNHeap.pop at hp
  split at hp
  · cases hp
  · rename_i last hlast
    cases hp
    refine ⟨⟨hleads, (List.nodup_cons.mp hnodup).2, ?_, fun d => ?_⟩, rfl, h.val[k], ?_, ?_⟩
    · have := hi.size_le
      dsimp only at hlen ⊢
      omega
    · dsimp only at hleads hlen ⊢
      have hbase : ((h.idx.setIfInBounds 0 last).pop).size = h.idx.size - 1 := by simp
      have hleads0 : Leads h.val (h.idx.setIfInBounds 0 last).pop := by
        split_ifs at hleads with h0
        · exact hleads
        · exact hleads.perm (siftDown_perm ..).symm
      have hdown : DownOrder (fun a b => cmp a b = true) (h.idx.setIfInBounds 0 last).pop.size
          (key d h.val (h.idx.setIfInBounds 0 last).pop) 0 := by
        refine ((hi.ordered d).mono (by omega)).replace fun i h0 hlt => ?_
        unfold key
        rw [Array.getElem?_pop, if_pos (by simp; omega), Array.getElem?_setIfInBounds,
          if_neg (by omega)]
      by_cases h0 : (h.idx.setIfInBounds 0 last).pop.size = 0
      · rw [if_pos h0]
        intro i _ hlt
        omega
      · rw [if_neg h0, (siftDown_perm cmp h.val _ 0 _).size_eq]
        exact siftDown_ordered d hleads0 (by omega) (by omega) (by omega) hdown
    · rw [top, hk, Option.bind_some, Array.getElem?_eq_getElem hkval]
    · have hlive := hperm.filterMap fun j => h.val[j]?
      rw [List.filterMap_cons, Array.getElem?_eq_getElem hkval] at hlive
      exact hlive

/-! ## The refinement -/

omit [IsStrictWeakOrder α fun a b => cmp a b = true] in
theorem BoundedStep.unique {capacity : Nat} {t : Option α} {m m₁ m₂ : Multiset α} {op : HeapOp α}
    (h₁ : BoundedStep cmp capacity t m op m₁) (h₂ : BoundedStep cmp capacity t m op m₂) :
    m₁ = m₂ := by
  cases h₁ with
  | add h =>
    cases h₂ with
    | add => rfl
    | replace h' | keep h' | noRoom h' => omega
  | replace h htop _ hv hm =>
    cases h₂ with
    | add h' => omega
    | replace _ htop' _ _ hm' =>
      rw [htop] at htop'
      cases htop'
      rw [hm] at hm'
      rw [(Multiset.cons_inj_right _).mp hm']
    | keep _ htop' _ hv' =>
      rw [htop] at htop'
      cases htop'
      rw [hv] at hv'
      cases hv'
    | noRoom _ h0 =>
      rw [hm, Multiset.card_cons] at h
      omega
  | keep h htop _ hv =>
    cases h₂ with
    | add h' => omega
    | replace _ htop' _ hv' =>
      rw [htop] at htop'
      cases htop'
      rw [hv] at hv'
      cases hv'
    | keep => rfl
    | noRoom => rfl
  | noRoom h h0 =>
    cases h₂ with
    | add h' => omega
    | replace h' _ _ _ hm =>
      rw [hm, Multiset.card_cons] at h'
      omega
    | keep => rfl
    | noRoom => rfl
  | pop htop _ hm =>
    cases h₂ with
    | pop htop' _ hm' =>
      rw [htop] at htop'
      cases htop'
      rw [hm] at hm'
      exact (Multiset.cons_inj_right _).mp hm'
  | clear =>
    cases h₂ with
    | clear => rfl

/-- **One sound operation** keeps the invariant and does to the live values what it is for. -/
theorem Inv.step {h' : TopNHeap α} {op : HeapOp α} (hi : Inv cmp h) (hs : h.Sound op)
    (hstep : h.step cmp op = some h') :
    Inv cmp h' ∧ h'.capacity = h.capacity ∧
      BoundedStep cmp h.capacity h.top ↑h.live op ↑h'.live := by
  have hcard : (h.live : Multiset α).card = h.idx.size := hi.live_length
  cases op with
  | push v =>
    cases hstep
    refine ⟨?_, push_capacity h v, ?_⟩ <;> unfold Sound at hs <;>
      by_cases hlt : h.idx.size < h.capacity
    · rw [if_pos hlt] at hs
      exact (hi.push_add hlt hs).1
    · rw [if_neg hlt] at hs
      by_cases h0 : h.capacity = 0
      · rw [push, if_pos h0]
        exact hi
      · exact (hi.push_full h0 hlt hs).1
    · rw [if_pos hlt] at hs
      rw [Multiset.coe_eq_coe.mpr (hi.push_add hlt hs).2]
      exact .add (hcard ▸ hlt)
    · rw [if_neg hlt] at hs
      have hle := hi.size_le
      by_cases h0 : h.capacity = 0
      · rw [push, if_pos h0]
        exact .noRoom (by omega) h0
      · obtain ⟨-, e, rest, htop, hlive, hperm⟩ := hi.push_full (v := v) h0 hlt hs
        rw [Multiset.coe_eq_coe.mpr hperm]
        have he := hi.isTop htop
        have hfull : (h.live : Multiset α).card = h.capacity := by omega
        by_cases hv : cmp e v = true
        · rw [if_pos hv]
          change BoundedStep cmp h.capacity h.top ↑h.live (.push v) (v ::ₘ ↑rest)
          refine .replace hfull htop he hv ?_
          rw [hlive]
          rfl
        · rw [if_neg hv]
          exact .keep hfull htop he (Bool.not_eq_true _ ▸ hv)
  | pop =>
    obtain ⟨hi', hcap, e, htop, hperm⟩ := hi.pop hstep hs
    refine ⟨hi', hcap, .pop htop (hi.isTop htop) ?_⟩
    rw [Multiset.coe_eq_coe.mpr hperm]
    rfl
  | clear =>
    cases hstep
    refine ⟨inv_clear cmp h, rfl, ?_⟩
    exact .clear

omit [IsStrictWeakOrder α fun a b => cmp a b = true] in
theorem Inv.push_used (hi : Inv cmp h) {v e : α} (hlt : h.idx.size < h.capacity)
    (hused : h.idx.size ∈ h.idx.toList) (he : h.val[h.idx.size]? = some e) :
    ∃ rest, h.live.Perm (e :: rest) ∧ (h.push cmp v).live.Perm (v :: v :: rest) := by
  have hin := hi.leads _ hused
  obtain ⟨hnew, hold, -, -⟩ := stored_slot hi.size_le_val v
  rw [TopNHeap.push_add h v hlt]
  generalize (if h.idx.size < h.val.size then h.val.setIfInBounds h.idx.size v else h.val.push v) =
    val at hnew hold
  have hsplit := List.perm_cons_erase hused
  have hrest : h.idx.size ∉ h.idx.toList.erase h.idx.size := hi.nodup.not_mem_erase
  refine ⟨(h.idx.toList.erase h.idx.size).filterMap fun k => h.val[k]?, ?_, ?_⟩
  · refine (hsplit.filterMap _).trans ?_
    rw [List.filterMap_cons, he]
  · have hperm := Array.perm_iff_toList_perm.mp
      (siftUp_perm cmp val h.idx.size h.idx.size (h.idx.push h.idx.size))
    refine (hperm.filterMap fun k => val[k]?).trans ?_
    rw [Array.toList_push, List.filterMap_append, List.filterMap_cons, hnew, List.filterMap_nil]
    refine (List.perm_append_singleton v _).trans (List.Perm.cons v ?_)
    refine (hsplit.filterMap _).trans ?_
    simp only [List.filterMap_cons, hnew]
    refine (List.Perm.of_eq (List.filterMap_congr fun k hk => hold k ?_)).cons v
    rintro rfl
    exact hrest hk

theorem Inv.drain_sorted {fuel : Nat} (hi : Inv cmp h) (hsize : h.idx.size ≤ 2 ^ 31)
    (hfuel : h.idx.size ≤ fuel) :
    (h.drain cmp fuel).Pairwise fun a b => cmp b a = false := by
  induction fuel generalizing h with
  | zero => exact .nil
  | succ fuel ih =>
    unfold drain
    split
    · rename_i v h' htop hpop
      obtain ⟨hi', -, e, htop', hperm⟩ := hi.pop hpop hsize
      rw [htop] at htop'
      cases htop'
      have hlen := hperm.length_eq
      rw [List.length_cons, hi.live_length, hi'.live_length] at hlen
      refine List.pairwise_cons.mpr ⟨fun b hb => ?_, ih hi' (by omega) (by omega)⟩
      have hb' := (drain_perm cmp hi'.leads (by omega)).mem_iff.mp hb
      exact (hi.isTop htop).2 b (Multiset.mem_coe.mpr (hperm.mem_iff.mpr (.tail _ hb')))
    · exact .nil

omit [IsStrictWeakOrder α fun a b => cmp a b = true] in
theorem Inv.drain_perm (hi : Inv cmp h) :
    (h.drain cmp h.live.length).Perm h.live :=
  TopNHeap.drain_perm cmp hi.leads (Nat.le_of_eq hi.live_length.symm)

end Order

/-- **The heap is a bounded multiset** along every run of sound operations: `Top` is a top element of
the live values, an operation changes them as it changes the multiset, and draining gives them in
heap order. A `Push` that finds another value in its slot does not add its value. -/
theorem heap_refines (cmp : α → α → Bool) [IsStrictWeakOrder α fun a b => cmp a b = true]
    (capacity : UInt32) :
    (new capacity.toNat : TopNHeap α).live = [] ∧
    ∀ h, (heapMachine cmp capacity.toNat).Reach Sound h →
      (h.live ≠ [] → ∃ e, h.top = some e) ∧
      (∀ e, h.top = some e → IsTop cmp ↑h.live e) ∧
      (∀ op h', h.Sound op → h.step cmp op = some h' →
        ∀ m, BoundedStep cmp capacity.toNat h.top ↑h.live op m ↔ m = ↑h'.live) ∧
      (h.live.length ≤ 2 ^ 31 → (h.drain cmp h.live.length).Perm h.live ∧
        (h.drain cmp h.live.length).Pairwise fun a b => cmp b a = false) ∧
      ∀ v e, h.idx.size < h.capacity → h.idx.size ∈ h.idx.toList →
        h.val[h.idx.size]? = some e → e ≠ v →
        ¬ BoundedStep cmp capacity.toNat h.top ↑h.live (.push v) ↑(h.push cmp v).live := by
  refine ⟨rfl, fun h hreach => ?_⟩
  have hinv : Inv cmp h ∧ h.capacity = capacity.toNat := by
    refine Lib.Machine.Reach.inv (I := fun h => Inv cmp h ∧ h.capacity = capacity.toNat)
      ?_ ?_ hreach
    · rintro h rfl
      exact ⟨inv_new cmp _, Nat.mod_eq_of_lt capacity.toNat_lt⟩
    · rintro h op h' ⟨hi, hcap⟩ hs hstep
      obtain ⟨hi', hcap', -⟩ := hi.step hs hstep
      exact ⟨hi', hcap'.trans hcap⟩
  obtain ⟨hi, hcap⟩ := hinv
  refine ⟨fun hne => ?_, fun e htop => hi.isTop htop, fun op h' hs hstep m => ?_,
    fun hsize => ⟨hi.drain_perm, ?_⟩, fun v e hlt hused he hne hb => ?_⟩
  · have hsize : h.idx.size ≠ 0 := by
      rw [← hi.live_length]
      exact fun h0 => hne (List.length_eq_zero_iff.mp h0)
    obtain ⟨_, e, _, -, -, htop, -⟩ := hi.root hsize
    exact ⟨e, htop⟩
  · have hb := (hi.step hs hstep).2.2
    rw [hcap] at hb
    exact ⟨fun hm => BoundedStep.unique hm hb, fun hm => hm ▸ hb⟩
  · rw [hi.live_length] at hsize ⊢
    exact hi.drain_sorted hsize (Nat.le_refl _)
  · obtain ⟨rest, hlive, hlive'⟩ := hi.push_used (v := v) hlt hused he
    have hcard : (h.live : Multiset α).card = h.idx.size := hi.live_length
    have hadd : BoundedStep cmp capacity.toNat h.top ↑h.live (.push v) (v ::ₘ ↑h.live) :=
      .add (by omega)
    have heq := BoundedStep.unique hb hadd
    rw [Multiset.coe_eq_coe.mpr hlive, Multiset.coe_eq_coe.mpr hlive', ← Multiset.cons_coe,
      ← Multiset.cons_coe, ← Multiset.cons_coe, Multiset.cons_inj_right] at heq
    exact hne ((Multiset.cons_inj_left _).mp heq).symm

/-- The order of the numbers as a comparator. -/
def lessNat (a b : Nat) : Bool := decide (a < b)

instance : IsStrictWeakOrder Nat fun a b => lessNat a b = true where
  irrefl a h := Nat.lt_irrefl a (of_decide_eq_true h)
  trans _ _ _ hab hbc :=
    decide_eq_true (Nat.lt_trans (of_decide_eq_true hab) (of_decide_eq_true hbc))
  incomp_trans a b c hab hbc := by
    simp only [lessNat, decide_eq_true_eq] at hab hbc ⊢
    omega

/-- A full heap of three takes 7 in the place of 1 and drops 5; 7 and 9 are left, in order. -/
theorem heap_refines_three : ∃ h, (heapMachine lessNat 3).Reach Sound h ∧
    h.drain lessNat 2 = [7, 9] ∧ h.live.length = 2 ∧ IsTop lessNat ↑h.live 7 := by
  let sound : TopNHeap Nat → HeapOp Nat → Bool := fun h op => decide (h.Sound op)
  obtain ⟨h, hreach, hp⟩ := Lib.Machine.exists_reachable_of_run
    (M := (heapMachine lessNat 3).guard sound) (s := new 3)
    (l := [.push 5, .push 1, .push 9, .push 7, .pop]) (p := fun h => h.top = some 7 ∧
      h.drain lessNat 2 = [7, 9] ∧ h.live.length = 2) rfl (by decide +kernel)
  obtain ⟨htop, hdrain, hlen⟩ := hp
  have hsound := Lib.Machine.Reach.of_guard (fun _ _ _ hs => of_decide_eq_true hs) hreach
  exact ⟨h, hsound, hdrain, hlen, ((heap_refines lessNat 3).2 h hsound).2.1 7 htop⟩

/-- After a `Pop` the value left is in slot 1. The next `Push` writes that slot: 2 is lost and 3 is in
the heap twice. -/
theorem heap_loses_value : ∃ h h', (heapMachine lessNat 2).Reachable h ∧
    h.live = [2] ∧ h.step lessNat (.push 3) = some h' ∧ h'.live = [3, 3] ∧
    ¬ BoundedStep lessNat 2 h.top ↑h.live (.push 3) ↑h'.live := by
  refine ⟨⟨#[1, 2], #[1], 2⟩, ⟨#[1, 3], #[1, 1], 2⟩, ?_, rfl, by decide +kernel, rfl, fun hb => ?_⟩
  · have hrun : (heapMachine lessNat 2).run (new 2) [.push 1, .push 2, .pop] =
        some ⟨#[1, 2], #[1], 2⟩ := by decide +kernel
    exact Lib.Machine.reachable_of_run rfl hrun
  · have hadd : BoundedStep lessNat 2 (some 2) {2} (.push 3) (3 ::ₘ {2}) :=
      .add (by decide)
    exact absurd (BoundedStep.unique hb hadd) (by decide)

end UnifiedCache.Infra.TopNHeap
