import UnifiedCache.Cache.TransBuffer
import UnifiedCache.Lib.DLinked
import UnifiedCache.Lib.PinPool
import Mathlib.Data.List.Perm.Subperm

/-!
# `TransBuffer`: the representation invariant

The chains of the hash table stay finite and doubly linked, a node's `hash` names the chain it is
in, a key lies in the bucket of its hash and in one node only. With the chains out of sight the
buffer is a pool of pinned slots (`pool`), and every operation is the one of the pool (`get_pool`,
`release_pool` and so on).
-/

open Lib

namespace UnifiedCache.Cache

namespace TransBuffer

variable {cfg : BufferConfig}

/-! ## Field lemmas -/

@[simp] theorem modify_firstAt (s : TransBuffer) (i : Nat) (f : BufferMetaNode → BufferMetaNode) :
    (s.modify i f).firstAt = s.firstAt := rfl

theorem modify_metaAt (s : TransBuffer) (i : Nat) (f : BufferMetaNode → BufferMetaNode) (j : Nat) :
    (s.modify i f).metaAt j = if j = i then f (s.metaAt j) else s.metaAt j := rfl

@[simp] theorem modify_metaAt_self (s : TransBuffer) (i : Nat)
    (f : BufferMetaNode → BufferMetaNode) : (s.modify i f).metaAt i = f (s.metaAt i) := by
  simp [modify_metaAt]

variable {i : Nat}

theorem modify_metaAt_ne (s : TransBuffer) {j : Nat} (f : BufferMetaNode → BufferMetaNode)
    (h : j ≠ i) : (s.modify i f).metaAt j = s.metaAt j := by
  simp [modify_metaAt, h]

@[simp] theorem setFirst_metaAt (s : TransBuffer) (b : Nat) (h : Option Nat) :
    (s.setFirst b h).metaAt = s.metaAt := rfl

theorem setFirst_firstAt (s : TransBuffer) (b : Nat) (h : Option Nat) (c : Nat) :
    (s.setFirst b h).firstAt c = if c = b then h else s.firstAt c := rfl

@[simp] theorem modifyAt_firstAt (s : TransBuffer) (o : Option Nat)
    (f : BufferMetaNode → BufferMetaNode) : (s.modifyAt o f).firstAt = s.firstAt := by
  cases o <;> rfl

theorem modifyAt_metaAt (s : TransBuffer) (o : Option Nat) (f : BufferMetaNode → BufferMetaNode)
    (j : Nat) : (s.modifyAt o f).metaAt j = if o = some j then f (s.metaAt j) else s.metaAt j := by
  cases o with
  | none => rfl
  | some i => simp [modifyAt, modify_metaAt, eq_comm]

theorem moveTo_metaAt (s : TransBuffer) (b i j : Nat) :
    (s.moveTo b i).metaAt j =
      { s.metaAt j with
        next := if j = i then s.firstAt b else (s.metaAt j).next
        prev := if s.firstAt b = some j then some i else (s.metaAt j).prev
        hash := if j = i then some b else (s.metaAt j).hash } := by
  by_cases hj : j = i <;> by_cases hh : s.firstAt b = some j <;>
    (simp [moveTo, modify_metaAt, modifyAt_metaAt, hj, hh]; try simp_all)

theorem moveTo_firstAt (s : TransBuffer) (b i c : Nat) :
    (s.moveTo b i).firstAt c = if c = b then some i else s.firstAt c := by
  simp [moveTo, setFirst_firstAt]

theorem remove_links (s : TransBuffer) (i : Nat) :
    ((s.modifyAt (s.metaAt i).prev fun m => { m with next := (s.metaAt i).next }).metaAt i).next =
        (s.metaAt i).next ∧
      ((s.modifyAt (s.metaAt i).prev fun m => { m with next := (s.metaAt i).next }).metaAt i).prev =
        (s.metaAt i).prev := by
  rw [modifyAt_metaAt]
  split <;> exact ⟨rfl, rfl⟩

theorem remove_metaAt (s : TransBuffer) (b i j : Nat) :
    (s.remove b i).metaAt j =
      { s.metaAt j with
        next := if j = i then none
          else if (s.metaAt i).prev = some j then (s.metaAt i).next else (s.metaAt j).next
        prev := if j = i then none
          else if (s.metaAt i).next = some j then (s.metaAt i).prev else (s.metaAt j).prev
        hash := if j = i then none else (s.metaAt j).hash } := by
  obtain ⟨hnext, hprev⟩ := remove_links s i
  unfold remove
  simp only [hnext, hprev]
  by_cases hj : j = i
  · subst hj
    split <;> simp [modifyAt_metaAt]
  · by_cases hp : (s.metaAt i).prev = some j <;> by_cases hn : (s.metaAt i).next = some j <;>
      (split <;> simp [modify_metaAt, modifyAt_metaAt, hj, hp, hn])

theorem remove_firstAt (s : TransBuffer) (b i c : Nat) :
    (s.remove b i).firstAt c =
      if c = b then (if s.firstAt b = some i then (s.metaAt i).next else s.firstAt b)
      else s.firstAt c := by
  obtain ⟨hnext, -⟩ := remove_links s i
  unfold remove
  simp only [hnext, modify_firstAt, modifyAt_firstAt]
  by_cases hc : c = b <;> split <;> simp [setFirst_firstAt, hc]

/-! ## The representation invariant -/

/-- The links of the nodes. -/
def links (s : TransBuffer) : Links Nat := ⟨fun i => (s.metaAt i).next, fun i => (s.metaAt i).prev⟩

/-- The node is in a chain with the key `(blockId, shardIdx)`. -/
def Keyed (s : TransBuffer) (i : Nat) (blockId : BlockId) (shardIdx : Nat) : Prop :=
  (s.metaAt i).hash ≠ none ∧ (s.metaAt i).block = blockId ∧ (s.metaAt i).shard = shardIdx

/-- The table is well formed, `chain b` being the nodes of bucket `b` in order. -/
structure RepInv (cfg : BufferConfig) (s : TransBuffer) (chain : Nat → List Nat) : Prop where
  linked : ∀ b, DLinked s.links none (s.firstAt b) (chain b)
  nodup : ∀ b, (chain b).Nodup
  hash_iff : ∀ b i, (s.metaAt i).hash = some b ↔ i ∈ chain b
  key_hash : ∀ b i, i ∈ chain b → cfg.hash (s.metaAt i).block (s.metaAt i).shard = b
  key_inj : ∀ i j blk sh, s.Keyed i blk sh → s.Keyed j blk sh → i = j
  lt_nNode : ∀ b i, i ∈ chain b → i < cfg.nNode
  free_prev : ∀ i, (s.metaAt i).hash = none → (s.metaAt i).prev = none
  ref_keyed : ∀ i, 0 < (s.metaAt i).reference → (s.metaAt i).hash ≠ none

theorem repInv_setup : RepInv cfg setup fun _ => [] where
  linked := fun _ => rfl
  nodup := fun _ => List.nodup_nil
  hash_iff := by simp [setup, BufferMetaNode.init]
  key_hash := by simp
  key_inj := by simp [Keyed, setup, BufferMetaNode.init]
  lt_nNode := by simp
  free_prev := by simp [setup, BufferMetaNode.init]
  ref_keyed := by simp [setup, BufferMetaNode.init]

variable {s : TransBuffer} {chain : Nat → List Nat}

theorem RepInv.congr {s' : TransBuffer} (h : RepInv cfg s chain) (hf : s'.firstAt = s.firstAt)
    (hm : ∀ i, s'.metaAt i =
      { s.metaAt i with reference := (s'.metaAt i).reference, ready := (s'.metaAt i).ready })
    (hr : ∀ i, 0 < (s'.metaAt i).reference → (s.metaAt i).hash ≠ none) : RepInv cfg s' chain := by
  have hb : ∀ i, (s'.metaAt i).block = (s.metaAt i).block := fun i => by rw [hm i]
  have hsh : ∀ i, (s'.metaAt i).shard = (s.metaAt i).shard := fun i => by rw [hm i]
  have hh : ∀ i, (s'.metaAt i).hash = (s.metaAt i).hash := fun i => by rw [hm i]
  have hn : ∀ i, (s'.metaAt i).next = (s.metaAt i).next := fun i => by rw [hm i]
  have hp : ∀ i, (s'.metaAt i).prev = (s.metaAt i).prev := fun i => by rw [hm i]
  refine
    { linked := fun b => ?_
      nodup := h.nodup
      hash_iff := fun b i => by rw [hh]; exact h.hash_iff b i
      key_hash := fun b i hi => by rw [hb, hsh]; exact h.key_hash b i hi
      key_inj := fun i j blk sh hi hj => ?_
      lt_nNode := h.lt_nNode
      free_prev := fun i hi => by rw [hp]; exact h.free_prev i (by rw [← hh]; exact hi)
      ref_keyed := fun i hi => by rw [hh]; exact hr i hi }
  · rw [hf]
    exact (h.linked b).congr fun y _ => ⟨hn y, hp y⟩
  · unfold Keyed at hi hj
    rw [hh, hb, hsh] at hi hj
    exact h.key_inj i j blk sh hi hj

theorem RepInv.length_le (h : RepInv cfg s chain) (b : Nat) : (chain b).length ≤ cfg.nNode := by
  have hsub : (chain b) ⊆ List.range cfg.nNode := fun i hi =>
    List.mem_range.mpr (h.lt_nNode b i hi)
  simpa using (List.subperm_of_subset (h.nodup b) hsub).length_le

/-! ## Looking a key up -/

theorem walk_eq_find (s : TransBuffer) (blk : BlockId) (sh : Nat) {l : List Nat} :
    ∀ {p h : Option Nat} {fuel : Nat}, DLinked s.links p h l → l.length < fuel →
      s.walk blk sh fuel h =
        l.find? fun i => (s.metaAt i).block = blk ∧ (s.metaAt i).shard = sh := by
  induction l with
  | nil =>
    intro p h fuel hl hfuel
    obtain ⟨fuel, rfl⟩ : ∃ k, fuel = k + 1 := ⟨fuel - 1, by simp at hfuel; omega⟩
    rw [dlinked_nil] at hl
    subst hl
    rfl
  | cons x l ih =>
    intro p h fuel hl hfuel
    obtain ⟨fuel, rfl⟩ : ∃ k, fuel = k + 1 := ⟨fuel - 1, by simp at hfuel; omega⟩
    obtain ⟨rfl, -, h3⟩ := hl
    rw [walk]
    by_cases hk : (s.metaAt x).block = blk ∧ (s.metaAt x).shard = sh
    · simp [hk]
    · rw [if_neg hk, List.find?_cons_of_neg (by simpa using hk)]
      exact ih h3 (by simpa using hfuel)

variable {blk : BlockId} {sh : Nat}

theorem RepInv.walk_eq_some (h : RepInv cfg s chain) :
    s.walk blk sh (cfg.nNode + 1) (s.firstAt (cfg.hash blk sh)) = some i ↔ s.Keyed i blk sh := by
  have hlen := h.length_le (cfg.hash blk sh)
  rw [walk_eq_find s blk sh (h.linked _) (by omega)]
  constructor
  · intro hf
    have hk := List.find?_some hf
    simp only [decide_eq_true_eq] at hk
    have hmem := (h.hash_iff _ _).mpr (List.mem_of_find?_eq_some hf)
    exact ⟨by rw [hmem]; simp, hk⟩
  · rintro ⟨hne, hb, hsh⟩
    obtain ⟨b, hb'⟩ := Option.ne_none_iff_exists'.mp hne
    have hmem := (h.hash_iff b i).mp hb'
    have hbk := h.key_hash b i hmem
    rw [hb, hsh] at hbk
    subst hbk
    cases hf : (chain (cfg.hash blk sh)).find?
        (fun i => decide ((s.metaAt i).block = blk ∧ (s.metaAt i).shard = sh)) with
    | none =>
      have := List.find?_eq_none.mp hf i hmem
      simp [hb, hsh] at this
    | some j =>
      have hk := List.find?_some hf
      simp only [decide_eq_true_eq] at hk
      have hj := (h.hash_iff _ _).mpr (List.mem_of_find?_eq_some hf)
      rw [h.key_inj i j blk sh ⟨hne, hb, hsh⟩ ⟨by rw [hj]; simp, hk⟩]

theorem RepInv.exist_iff (h : RepInv cfg s chain) :
    s.exist cfg blk sh = true ↔ ∃ i, s.Keyed i blk sh := by
  unfold exist existAt
  rw [Option.isSome_iff_exists]
  exact exists_congr fun i => h.walk_eq_some

/-! ## Taking a node over -/

theorem fetchNode_lt (cfg : BufferConfig) (s : TransBuffer) (allowReserved : Bool) :
    (s.fetchNode cfg allowReserved).1 < cfg.nNode := by
  have := cfg.reserved_lt
  unfold fetchNode
  dsimp only
  split_ifs <;> omega

theorem RepInv.remove (h : RepInv cfg s chain) {b : Nat} (hi : (s.metaAt i).hash = some b)
    (hr : (s.metaAt i).reference = 0) :
    RepInv cfg (s.remove b i) fun c => (chain c).erase i := by
  obtain ⟨l1, l2, hl⟩ := List.append_of_mem ((h.hash_iff b i).mp hi)
  have hnd := h.nodup b
  rw [hl] at hnd
  have hi1 : i ∉ l1 := fun hc => (List.nodup_append.mp hnd).2.2 i hc i (by simp) rfl
  have herase : (chain b).erase i = l1 ++ l2 := by
    rw [hl, List.erase_append_right _ hi1, List.erase_cons_head]
  have hother : ∀ c, c ≠ b → i ∉ chain c := fun c hc hmem => by
    have := (h.hash_iff c i).mpr hmem
    rw [hi] at this
    exact hc (Option.some.inj this).symm
  refine
    { linked := fun c => ?_
      nodup := fun c => (h.nodup c).erase _
      hash_iff := fun c j => ?_
      key_hash := fun c j hj => ?_
      key_inj := fun j k blk sh hj hk => ?_
      lt_nNode := fun c j hj => h.lt_nNode c j (List.mem_of_mem_erase hj)
      free_prev := fun j hj => ?_
      ref_keyed := fun j hj => ?_ }
  · rw [remove_firstAt]
    by_cases hc : c = b
    · subst hc
      rw [if_pos rfl, herase]
      have hlink := h.linked c
      rw [hl] at hlink
      have hne : ∀ y ∈ l1 ++ l2, y ≠ i := by
        rintro y hy rfl
        rcases List.mem_append.mp hy with hy | hy
        · exact hi1 hy
        · exact (List.nodup_cons.mp (List.nodup_append.mp hnd).2.1).1 hy
      refine hlink.unlink hnd (fun y hy => ?_) (fun y hy => ?_)
      · by_cases hp : (s.metaAt i).prev = some y <;>
          simp [links, remove_metaAt, hne y hy, hp]
      · by_cases hn : (s.metaAt i).next = some y <;>
          simp [links, remove_metaAt, hne y hy, hn]
    · rw [if_neg hc, List.erase_of_not_mem (hother c hc)]
      refine (h.linked c).congr fun y hy => ?_
      have hyi : y ≠ i := fun e => hother c hc (e ▸ hy)
      -- the neighbours of `i` are in bucket `b`
      have hlink := h.linked b
      rw [hl] at hlink
      obtain ⟨hp, hn, -⟩ := hlink.around
      have hyb : y ∉ chain b := fun hmem => by
        have h1 := (h.hash_iff c y).mpr hy
        rw [(h.hash_iff b y).mpr hmem] at h1
        exact hc (Option.some.inj h1).symm
      have hpy : (s.metaAt i).prev ≠ some y := fun e => by
        refine hyb ?_
        rw [hl]
        refine List.mem_append_left _ (List.mem_of_getLast? ?_)
        rw [← e]
        simpa [links] using hp.symm
      have hny : (s.metaAt i).next ≠ some y := fun e => by
        refine hyb ?_
        rw [hl]
        refine List.mem_append_right _ (List.mem_cons_of_mem _ (List.mem_of_head? ?_))
        rw [← e]
        exact hn.symm
      simp [links, remove_metaAt, hyi, hpy, hny]
  · rw [remove_metaAt]
    by_cases hj : j = i
    · subst hj
      simp [(h.nodup c).mem_erase_iff]
    · simp only [hj, if_false, (h.nodup c).mem_erase_iff, ne_eq, not_false_eq_true, true_and]
      exact h.hash_iff c j
  · rw [remove_metaAt]
    exact h.key_hash c j (List.mem_of_mem_erase hj)
  · simp only [Keyed, remove_metaAt] at hj hk
    by_cases hji : j = i
    · simp [hji] at hj
    · by_cases hki : k = i
      · simp [hki] at hk
      · rw [if_neg hji] at hj
        rw [if_neg hki] at hk
        exact h.key_inj j k blk sh hj hk
  · rw [remove_metaAt] at hj ⊢
    by_cases hji : j = i
    · simp [hji]
    · have hjn : (s.metaAt j).hash = none := by simpa [hji] using hj
      have hnj : (s.metaAt i).next ≠ some j := fun e => by
        have hlink := h.linked b
        rw [hl] at hlink
        have hn := hlink.around.2.1
        have hmem : j ∈ chain b := by
          rw [hl]
          refine List.mem_append_right _ (List.mem_cons_of_mem _ (List.mem_of_head? ?_))
          rw [← e]
          exact hn.symm
        rw [(h.hash_iff b j).mpr hmem] at hjn
        exact absurd hjn (by simp)
      simp [hji, hnj, h.free_prev j hjn]
  · rw [remove_metaAt] at hj ⊢
    by_cases hji : j = i
    · subst hji
      simp [hr] at hj
    · simpa [hji] using h.ref_keyed j (by simpa using hj)

theorem RepInv.moveTo_rekey (h : RepInv cfg s chain) (hi : (s.metaAt i).hash = none)
    (hlt : i < cfg.nNode) (hnew : ∀ j, ¬ s.Keyed j blk sh) :
    RepInv cfg ((s.moveTo (cfg.hash blk sh) i).rekey i blk sh)
      fun c => if c = cfg.hash blk sh then i :: chain c else chain c := by
  have hfree : ∀ c, i ∉ chain c := fun c hc => by
    rw [(h.hash_iff c i).mpr hc] at hi
    exact absurd hi (by simp)
  have hhead : s.firstAt (cfg.hash blk sh) ≠ some i := fun e => by
    have := (h.linked (cfg.hash blk sh)).head
    rw [e] at this
    exact hfree _ (List.mem_of_head? this.symm)
  have hmeta : ∀ j, j ≠ i → ((s.moveTo (cfg.hash blk sh) i).rekey i blk sh).metaAt j =
      { s.metaAt j with
        prev := if s.firstAt (cfg.hash blk sh) = some j then some i else (s.metaAt j).prev } := by
    intro j hj
    simp [rekey, modify_metaAt, moveTo_metaAt, hj]
  refine
    { linked := fun c => ?_
      nodup := fun c => ?_
      hash_iff := fun c j => ?_
      key_hash := fun c j hj => ?_
      key_inj := fun j k b' sh' hj hk => ?_
      lt_nNode := fun c j hj => ?_
      free_prev := fun j hj => ?_
      ref_keyed := fun j hj => ?_ }
  · show DLinked _ none ((s.moveTo (cfg.hash blk sh) i).firstAt c) _
    rw [moveTo_firstAt]
    by_cases hc : c = cfg.hash blk sh
    · rw [if_pos hc, if_pos hc]
      subst hc
      have hne : ∀ y ∈ chain (cfg.hash blk sh), y ≠ i := fun y hy e => hfree _ (e ▸ hy)
      refine (h.linked _).push_front (List.nodup_cons.mpr ⟨hfree _, h.nodup _⟩) ?_ ?_
        (fun y hy => ?_) (fun y hy => ?_)
      · simp [links, rekey, moveTo_metaAt, hhead, h.free_prev i hi]
      · simp [links, rekey, moveTo_metaAt]
      · simp [links, hmeta y (hne y hy)]
      · by_cases hh : s.firstAt (cfg.hash blk sh) = some y <;>
          simp [links, hmeta y (hne y hy), hh]
    · rw [if_neg hc, if_neg hc]
      refine (h.linked c).congr fun y hy => ?_
      have hyi : y ≠ i := fun e => hfree c (e ▸ hy)
      have hyh : s.firstAt (cfg.hash blk sh) ≠ some y := fun e => by
        have hhd := (h.linked (cfg.hash blk sh)).head
        rw [e] at hhd
        have h1 := (h.hash_iff _ y).mpr (List.mem_of_head? hhd.symm)
        rw [(h.hash_iff c y).mpr hy] at h1
        exact hc (Option.some.inj h1)
      simp [links, hmeta y hyi, hyh]
  · split_ifs
    · exact List.nodup_cons.mpr ⟨hfree c, h.nodup c⟩
    · exact h.nodup c
  · by_cases hj : j = i
    · subst hj
      simp only [rekey, modify_metaAt_self, moveTo_metaAt, if_true]
      by_cases hc : c = cfg.hash blk sh
      · simp [hc]
      · simp [hc, hfree c, Ne.symm hc]
    · rw [hmeta j hj]
      by_cases hc : c = cfg.hash blk sh
      · simpa [hc, hj] using h.hash_iff (cfg.hash blk sh) j
      · simpa [hc] using h.hash_iff c j
  · by_cases hji : j = i
    · subst hji
      have hc : c = cfg.hash blk sh := by
        by_contra hc
        rw [if_neg hc] at hj
        exact hfree c hj
      simp [rekey, hc]
    · rw [hmeta j hji]
      refine h.key_hash c j ?_
      split_ifs at hj
      · simpa [hji] using hj
      · exact hj
  · -- the new key was in no node, so only `i` has it
    have hrest : ∀ j, j ≠ i → ((s.moveTo (cfg.hash blk sh) i).rekey i blk sh).Keyed j b' sh' →
        s.Keyed j b' sh' := by
      intro j hji hj
      simpa [Keyed, hmeta j hji] using hj
    have hself : ((s.moveTo (cfg.hash blk sh) i).rekey i blk sh).Keyed i b' sh' →
        blk = b' ∧ sh = sh' := by
      intro hj
      simpa [Keyed, rekey] using hj.2
    by_cases hji : j = i
    · by_cases hki : k = i
      · rw [hji, hki]
      · obtain ⟨rfl, rfl⟩ := hself (hji ▸ hj)
        exact absurd (hrest k hki hk) (hnew k)
    · by_cases hki : k = i
      · obtain ⟨rfl, rfl⟩ := hself (hki ▸ hk)
        exact absurd (hrest j hji hj) (hnew j)
      · exact h.key_inj j k b' sh' (hrest j hji hj) (hrest k hki hk)
  · split_ifs at hj
    · rcases List.mem_cons.mp hj with rfl | hj
      · exact hlt
      · exact h.lt_nNode c j hj
    · exact h.lt_nNode c j hj
  · by_cases hji : j = i
    · subst hji
      simp [rekey, moveTo_metaAt] at hj
    · rw [hmeta j hji] at hj ⊢
      have hyh : s.firstAt (cfg.hash blk sh) ≠ some j := fun e => by
        have hhd := (h.linked (cfg.hash blk sh)).head
        rw [e] at hhd
        rw [(h.hash_iff _ j).mpr (List.mem_of_head? hhd.symm)] at hj
        exact absurd hj (by simp)
      simpa [hyh] using h.free_prev j hj
  · by_cases hji : j = i
    · subst hji
      simp [rekey, moveTo_metaAt]
    · rw [hmeta j hji] at hj ⊢
      exact h.ref_keyed j hj

theorem RepInv.rekey (h : RepInv cfg s chain) (hi : (s.metaAt i).hash = some (cfg.hash blk sh))
    (hnew : ∀ j, ¬ s.Keyed j blk sh) : RepInv cfg (s.rekey i blk sh) chain := by
  have hmeta : ∀ j, j ≠ i → (s.rekey i blk sh).metaAt j = s.metaAt j := fun j hj => by
    simp [TransBuffer.rekey, modify_metaAt, hj]
  have hlinks : (s.rekey i blk sh).links = s.links := by
    unfold links TransBuffer.rekey
    congr 1 <;> funext j <;> rw [modify_metaAt] <;> split <;> rfl
  have hhash : ∀ j, ((s.rekey i blk sh).metaAt j).hash = (s.metaAt j).hash := fun j => by
    unfold TransBuffer.rekey
    rw [modify_metaAt]
    split <;> rfl
  have hprev : ∀ j, ((s.rekey i blk sh).metaAt j).prev = (s.metaAt j).prev :=
    fun j => congrFun (congrArg Links.prev hlinks) j
  refine
    { linked := fun c => by rw [hlinks]; exact h.linked c
      nodup := h.nodup
      hash_iff := fun c j => by rw [hhash]; exact h.hash_iff c j
      key_hash := fun c j hj => ?_
      key_inj := fun j k b' sh' hj hk => ?_
      lt_nNode := h.lt_nNode
      free_prev := fun j hj => by rw [hprev]; exact h.free_prev j (by rw [← hhash]; exact hj)
      ref_keyed := fun j hj => ?_ }
  · by_cases hji : j = i
    · subst hji
      have hc := (h.hash_iff c j).mpr hj
      rw [hi] at hc
      simpa [TransBuffer.rekey] using Option.some.inj hc
    · rw [hmeta j hji]
      exact h.key_hash c j hj
  · have hrest : ∀ j, j ≠ i → (s.rekey i blk sh).Keyed j b' sh' → s.Keyed j b' sh' := by
      intro j hji hj
      simpa [Keyed, hmeta j hji] using hj
    have hself : (s.rekey i blk sh).Keyed i b' sh' → blk = b' ∧ sh = sh' := fun hj => by
      simpa [Keyed, TransBuffer.rekey] using hj.2
    by_cases hji : j = i
    · by_cases hki : k = i
      · rw [hji, hki]
      · obtain ⟨rfl, rfl⟩ := hself (hji ▸ hj)
        exact absurd (hrest k hki hk) (hnew k)
    · by_cases hki : k = i
      · obtain ⟨rfl, rfl⟩ := hself (hki ▸ hk)
        exact absurd (hrest j hji hj) (hnew j)
      · exact h.key_inj j k b' sh' (hrest j hji hj) (hrest k hki hk)
  · rw [hhash]
    by_cases hji : j = i
    · subst hji
      rw [hi]
      simp
    · exact h.ref_keyed j (by rw [← hmeta j hji]; exact hj)

/-! ## The buffer is a pool of pinned slots -/

/-- What a node is to the clients of the buffer. -/
def pool (s : TransBuffer) : Pool (BlockId × Nat) := fun i =>
  { key := if (s.metaAt i).hash = none then none else some ((s.metaAt i).block, (s.metaAt i).shard)
    reference := (s.metaAt i).reference
    ready := (s.metaAt i).ready }

theorem pool_key_iff (s : TransBuffer) (i : Nat) (blk : BlockId) (sh : Nat) :
    (s.pool i).key = some (blk, sh) ↔ s.Keyed i blk sh := by
  unfold pool Keyed
  by_cases h : (s.metaAt i).hash = none <;> simp [h]

@[simp] theorem pool_reference (s : TransBuffer) (i : Nat) :
    (s.pool i).reference = (s.metaAt i).reference := rfl

@[simp] theorem pool_ready (s : TransBuffer) (i : Nat) :
    (s.pool i).ready = (s.metaAt i).ready := rfl

theorem acquire_pool (s : TransBuffer) (i : Nat) : (s.acquire i).pool = s.pool.pin i := by
  funext j
  by_cases h : j = i
  · subst h; simp [pool, acquire]
  · rw [Pool.pin_ne h]; simp [pool, acquire, modify_metaAt, h]

theorem release_pool (s : TransBuffer) (i : Nat) : (s.release i).pool = s.pool.unpin i := by
  funext j
  by_cases h : j = i
  · subst h; simp [pool, release]
  · rw [Pool.unpin_ne h]; simp [pool, release, modify_metaAt, h]

theorem markReady_pool (s : TransBuffer) (i : Nat) : (s.markReady i).pool = s.pool.complete i := by
  funext j
  by_cases h : j = i
  · subst h; simp [pool, markReady]
  · rw [Pool.complete_ne h]; simp [pool, markReady, modify_metaAt, h]

theorem pool_eq_take {s' : TransBuffer} (hr : (s.metaAt i).reference = 0)
    (hself : s'.metaAt i = { s'.metaAt i with
      block := blk, shard := sh, ready := false, reference := (s.metaAt i).reference + 1 })
    (hhash : (s'.metaAt i).hash ≠ none) (hother : ∀ j, j ≠ i → s'.metaAt j =
      { s.metaAt j with next := (s'.metaAt j).next, prev := (s'.metaAt j).prev }) :
    s'.pool = s.pool.take i (blk, sh) := by
  funext j
  by_cases h : j = i
  · subst h
    rw [Pool.take_self]
    unfold pool
    rw [if_neg hhash, hself, hr]
  · rw [Pool.take_ne h]
    unfold pool
    rw [hother j h]

theorem RepInv.acquire (h : RepInv cfg s chain) (hi : (s.metaAt i).hash ≠ none) :
    RepInv cfg (s.acquire i) chain := by
  refine h.congr rfl (fun j => ?_) (fun j hj => ?_)
  · unfold TransBuffer.acquire; rw [modify_metaAt]; split <;> rfl
  · by_cases hji : j = i
    · rw [hji]; exact hi
    · refine h.ref_keyed j ?_
      rwa [TransBuffer.acquire, modify_metaAt_ne _ _ hji] at hj

theorem RepInv.release (h : RepInv cfg s chain) (i : Nat) : RepInv cfg (s.release i) chain := by
  refine h.congr rfl (fun j => ?_) (fun j hj => h.ref_keyed j ?_)
  · unfold TransBuffer.release; rw [modify_metaAt]; split <;> rfl
  · unfold TransBuffer.release at hj
    rw [modify_metaAt] at hj
    split at hj
    · exact Nat.lt_of_lt_of_le hj (Nat.sub_le _ _)
    · exact hj

theorem RepInv.markReady (h : RepInv cfg s chain) (i : Nat) : RepInv cfg (s.markReady i) chain := by
  refine h.congr rfl (fun j => ?_) (fun j hj => h.ref_keyed j ?_)
  · unfold TransBuffer.markReady; rw [modify_metaAt]; split <;> rfl
  · unfold TransBuffer.markReady at hj
    rw [modify_metaAt] at hj
    split at hj <;> exact hj

theorem RepInv.cursor (h : RepInv cfg s chain) (n : Nat) :
    RepInv cfg { s with freeHead := n } chain :=
  h.congr rfl (fun _ => rfl) h.ref_keyed

/-- The outcome of `Alloc`, or of one iteration of its loop, for a key that is in no node. -/
def AllocSpec (cfg : BufferConfig) (s : TransBuffer) (blk : BlockId) (sh : Nat)
    (r : Option Nat × TransBuffer) : Prop :=
  (∃ chain, RepInv cfg r.2 chain) ∧
    (r.1 = none ∧ r.2.pool = s.pool ∨
      ∃ i, r.1 = some i ∧ (s.metaAt i).reference = 0 ∧ r.2.pool = s.pool.take i (blk, sh))

theorem RepInv.allocOnce (h : RepInv cfg s chain) (hnew : ∀ j, ¬ s.Keyed j blk sh)
    (allowReserved tryLock : Bool) :
    AllocSpec cfg s blk sh
      (s.allocOnce cfg blk sh (cfg.hash blk sh) allowReserved tryLock) := by
  have hlt := fetchNode_lt cfg s allowReserved
  unfold TransBuffer.allocOnce
  generalize hf : s.fetchNode cfg allowReserved = r at hlt
  obtain ⟨i, s1⟩ := r
  obtain ⟨n, rfl⟩ : ∃ n, s1 = { s with freeHead := n } := ⟨_, (congrArg Prod.snd hf).symm⟩
  have h1 := h.cursor n
  dsimp only at hlt ⊢
  have hpool : (TransBuffer.mk s.firstAt n s.metaAt).pool = s.pool := rfl
  by_cases hr : 0 < (s.metaAt i).reference
  · rw [if_pos hr]
    exact ⟨⟨chain, h1⟩, .inl ⟨rfl, hpool⟩⟩
  · rw [if_neg hr]
    have hr0 : (s.metaAt i).reference = 0 := by omega
    cases hh : (s.metaAt i).hash with
    | none =>
      refine ⟨⟨_, h1.moveTo_rekey hh hlt hnew⟩, .inr ⟨i, rfl, hr0, ?_⟩⟩
      refine (pool_eq_take hr0 ?_ ?_ fun j hj => ?_).trans (congrArg (Pool.take · i (blk, sh)) hpool)
      · simp [TransBuffer.rekey, moveTo_metaAt]
      · simp [TransBuffer.rekey, moveTo_metaAt]
      · simp [TransBuffer.rekey, modify_metaAt, moveTo_metaAt, hj]
    | some oldBucket =>
      dsimp only
      by_cases hb : oldBucket = cfg.hash blk sh
      · rw [if_pos hb]
        subst hb
        refine ⟨⟨_, h1.rekey hh hnew⟩, .inr ⟨i, rfl, hr0, ?_⟩⟩
        refine (pool_eq_take hr0 ?_ ?_ fun j hj => ?_).trans
          (congrArg (Pool.take · i (blk, sh)) hpool)
        · simp [TransBuffer.rekey]
        · simp [TransBuffer.rekey, hh]
        · simp [TransBuffer.rekey, modify_metaAt, hj]
      · rw [if_neg hb]
        cases tryLock with
        | false => exact ⟨⟨chain, h1⟩, .inl ⟨rfl, hpool⟩⟩
        | true =>
          have h2 := h1.remove hh hr0
          refine ⟨⟨_, h2.moveTo_rekey (by simp [remove_metaAt]) hlt fun j hj => ?_⟩,
            .inr ⟨i, rfl, hr0, ?_⟩⟩
          · refine hnew j ⟨fun hc => hj.1 ?_, ?_⟩
            · rw [remove_metaAt]
              dsimp only
              split
              · rfl
              · exact hc
            · simpa [remove_metaAt] using hj.2
          · refine (pool_eq_take hr0 ?_ ?_ fun j hj => ?_).trans
              (congrArg (Pool.take · i (blk, sh)) hpool)
            · simp [TransBuffer.rekey, moveTo_metaAt, remove_metaAt]
            · simp [TransBuffer.rekey, moveTo_metaAt]
            · simp [TransBuffer.rekey, modify_metaAt, moveTo_metaAt, remove_metaAt, hj]

theorem RepInv.alloc (allowReserved : Bool) (tryLocks : List Bool) :
    ∀ {s : TransBuffer} {chain : Nat → List Nat}, RepInv cfg s chain →
      (∀ j, ¬ s.Keyed j blk sh) →
      AllocSpec cfg s blk sh (s.alloc cfg blk sh (cfg.hash blk sh) allowReserved tryLocks) := by
  induction tryLocks with
  | nil => intro s chain h _; exact ⟨⟨chain, h⟩, .inl ⟨rfl, rfl⟩⟩
  | cons t ts ih =>
    intro s chain h hnew
    obtain ⟨⟨chain1, h1⟩, hcase⟩ := h.allocOnce hnew allowReserved t
    unfold TransBuffer.alloc
    generalize s.allocOnce cfg blk sh (cfg.hash blk sh) allowReserved t = r at h1 hcase
    obtain ⟨o, s1⟩ := r
    rcases hcase with ⟨rfl, hpool⟩ | ⟨i, rfl, hr0, hpool⟩
    · have hkey : ∀ j, ¬ s1.Keyed j blk sh := fun j => by
        rw [← pool_key_iff, hpool, pool_key_iff]
        exact hnew j
      obtain ⟨hrep, hspec⟩ := ih h1 hkey
      refine ⟨hrep, ?_⟩
      rw [hpool] at hspec
      rcases hspec with hspec | ⟨i, hi, hr0, hspec⟩
      · exact .inl hspec
      · rw [← pool_reference, hpool, pool_reference] at hr0
        exact .inr ⟨i, hi, hr0, hspec⟩
    · exact ⟨⟨chain1, h1⟩, .inr ⟨i, rfl, hr0, hpool⟩⟩

theorem get_hit (allowReserved : Bool) (tryLocks : List Bool)
    (hw : s.walk blk sh (cfg.nNode + 1) (s.firstAt (cfg.hash blk sh)) = some i) :
    s.get cfg blk sh allowReserved tryLocks =
      (some ⟨i, (s.metaAt i).reference == 0⟩, s.acquire i) := by
  simp [get, findAt, hw]

theorem get_miss (allowReserved : Bool) (tryLocks : List Bool)
    (hw : s.walk blk sh (cfg.nNode + 1) (s.firstAt (cfg.hash blk sh)) = none) :
    s.get cfg blk sh allowReserved tryLocks =
      ((s.alloc cfg blk sh (cfg.hash blk sh) allowReserved tryLocks).1.map (⟨·, true⟩),
        (s.alloc cfg blk sh (cfg.hash blk sh) allowReserved tryLocks).2) := by
  simp only [get, findAt, hw]
  generalize s.alloc cfg blk sh (cfg.hash blk sh) allowReserved tryLocks = r
  obtain ⟨_ | i, s1⟩ := r <;> rfl

/-- **`Get` is the pool's `Get`.** The table stays well formed. -/
theorem RepInv.get (h : RepInv cfg s chain) (blk : BlockId) (sh : Nat) (allowReserved : Bool)
    (tryLocks : List Bool) :
    (∃ chain, RepInv cfg (s.get cfg blk sh allowReserved tryLocks).2 chain) ∧
      s.pool.Get (blk, sh)
        ((s.get cfg blk sh allowReserved tryLocks).1.map fun h => (h.pos, h.owner))
        (s.get cfg blk sh allowReserved tryLocks).2.pool := by
  cases hw : s.walk blk sh (cfg.nNode + 1) (s.firstAt (cfg.hash blk sh)) with
  | some i =>
    have hk := h.walk_eq_some.mp hw
    rw [get_hit allowReserved tryLocks hw]
    refine ⟨⟨chain, h.acquire hk.1⟩, ?_⟩
    rw [acquire_pool]
    exact .hit i ((pool_key_iff s i blk sh).mpr hk)
  | none =>
    have hmiss : ∀ j, ¬ s.Keyed j blk sh := fun j hj => by
      rw [h.walk_eq_some.mpr hj] at hw
      exact absurd hw (by simp)
    have hpoolmiss : ∀ j, (s.pool j).key ≠ some (blk, sh) := fun j hj =>
      hmiss j ((pool_key_iff s j blk sh).mp hj)
    rw [get_miss allowReserved tryLocks hw]
    obtain ⟨hrep, hcase⟩ := h.alloc allowReserved tryLocks hmiss
    refine ⟨hrep, ?_⟩
    rcases hcase with ⟨hnone, hpool⟩ | ⟨i, hsome, hr0, hpool⟩
    · rw [hnone, hpool]
      exact .search hpoolmiss
    · rw [hsome, hpool]
      exact .steal i hpoolmiss hr0

end TransBuffer

end UnifiedCache.Cache
