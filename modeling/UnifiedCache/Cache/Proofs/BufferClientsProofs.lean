import UnifiedCache.Cache.Proofs.TransBufferProofs

/-!
# Clients of the buffer

Whatever clients do to the buffer, one locked section at a time, the table stays well formed and the
references of a node are the live handles on it; so a node that somebody holds keeps its key.
-/

open Lib

namespace UnifiedCache.Cache

variable {cfg : BufferConfig} {s s' : BufferState} {e : BufferEvent}

/-- The invariant of the clients' runs. -/
structure BufferInv (cfg : BufferConfig) (s : BufferState) : Prop where
  rep : ∃ chain, TransBuffer.RepInv cfg s.buf chain
  /-- References are counted. -/
  count : ∀ i, (s.buf.pool i).reference = s.handles.countP (·.pos = i)

theorem countP_eraseIdx {α : Type*} (p : α → Bool) {l : List α} {k : Nat} {a : α}
    (h : l[k]? = some a) : l.countP p = (l.eraseIdx k).countP p + (if p a then 1 else 0) := by
  induction l generalizing k with
  | nil => simp at h
  | cons b l ih =>
    cases k with
    | zero =>
      obtain rfl : b = a := by simpa using h
      simp [List.countP_cons]
    | succ k =>
      rw [List.eraseIdx_cons_succ, List.countP_cons, List.countP_cons, ih (by simpa using h)]
      omega

theorem BufferInv.pinned (h : BufferInv cfg s) {k : Nat} {hd : Handle}
    (hk : s.handles[k]? = some hd) : 0 < (s.buf.pool hd.pos).reference := by
  rw [h.count, List.countP_pos_iff]
  exact ⟨hd, List.mem_of_getElem? hk, by simp⟩

theorem bufferInv_step (h : BufferInv cfg s) (hs : s.step cfg e = some s') :
    BufferInv cfg s' := by
  obtain ⟨⟨chain, hrep⟩, hcount⟩ := h
  cases e with
  | get blk sh allowReserved tryLocks =>
    obtain ⟨hrep', hget⟩ := hrep.get blk sh allowReserved tryLocks
    simp only [BufferState.step] at hs
    generalize s.buf.get cfg blk sh allowReserved tryLocks = r at hs hrep' hget
    obtain ⟨_ | hd, buf⟩ := r
    · cases hs
      refine ⟨hrep', fun i => ?_⟩
      simpa using (hget.reference_eq i).trans (by simpa using hcount i)
    · cases hs
      refine ⟨hrep', fun i => ?_⟩
      have hr := hget.reference_eq i
      simp only [Option.map_some, Option.some.injEq] at hr
      rw [hr, hcount i, List.countP_cons]
      simp
  | copy k =>
    simp only [BufferState.step, Option.map_eq_some_iff] at hs
    obtain ⟨hd, hk, rfl⟩ := hs
    have hpin : 0 < (s.buf.pool hd.pos).reference :=
      BufferInv.pinned ⟨⟨chain, hrep⟩, hcount⟩ hk
    refine ⟨⟨chain, hrep.acquire (hrep.ref_keyed _ hpin)⟩, fun i => ?_⟩
    rw [TransBuffer.acquire_pool, List.countP_cons, ← hcount]
    by_cases hi : i = hd.pos
    · subst hi; simp
    · rw [Pool.pin_ne hi]; simp [Ne.symm hi]
  | release k =>
    simp only [BufferState.step, Option.map_eq_some_iff] at hs
    obtain ⟨hd, hk, rfl⟩ := hs
    refine ⟨⟨chain, hrep.release _⟩, fun i => ?_⟩
    have hc := countP_eraseIdx (fun h : Handle => decide (h.pos = i)) hk
    rw [← hcount] at hc
    rw [TransBuffer.release_pool]
    by_cases hi : i = hd.pos
    · subst hi
      simp only [Pool.unpin_self]
      simp only [decide_true, if_true] at hc
      omega
    · rw [Pool.unpin_ne hi, hc]
      simp [Ne.symm hi]
  | markReady k =>
    simp only [BufferState.step, Option.map_eq_some_iff] at hs
    obtain ⟨hd, hk, rfl⟩ := hs
    refine ⟨⟨chain, hrep.markReady _⟩, fun i => ?_⟩
    rw [TransBuffer.markReady_pool, Pool.complete_reference]
    exact hcount i
  | exist blk sh =>
    cases hs
    exact ⟨⟨chain, hrep⟩, hcount⟩

theorem bufferInv_reachable (h : (bufferMachine cfg).Reachable s) : BufferInv cfg s := by
  refine h.inv ?_ fun s e s' hs _ hstep => bufferInv_step hs hstep
  rintro s rfl
  exact ⟨⟨_, TransBuffer.repInv_setup⟩, fun i => rfl⟩

theorem key_step (h : BufferInv cfg s) (hs : s.step cfg e = some s') {i : Nat}
    (hi : 0 < (s.buf.pool i).reference) : (s'.buf.pool i).key = (s.buf.pool i).key := by
  obtain ⟨⟨chain, hrep⟩, hcount⟩ := h
  cases e with
  | get blk sh allowReserved tryLocks =>
    have hget := (hrep.get blk sh allowReserved tryLocks).2
    simp only [BufferState.step] at hs
    generalize s.buf.get cfg blk sh allowReserved tryLocks = r at hs hget
    obtain ⟨_ | hd, buf⟩ := r <;> cases hs <;> exact hget.key_eq hi
  | copy k =>
    simp only [BufferState.step, Option.map_eq_some_iff] at hs
    obtain ⟨hd, -, rfl⟩ := hs
    rw [TransBuffer.acquire_pool, Pool.pin_key]
  | release k =>
    simp only [BufferState.step, Option.map_eq_some_iff] at hs
    obtain ⟨hd, -, rfl⟩ := hs
    rw [TransBuffer.release_pool, Pool.unpin_key]
  | markReady k =>
    simp only [BufferState.step, Option.map_eq_some_iff] at hs
    obtain ⟨hd, -, rfl⟩ := hs
    rw [TransBuffer.markReady_pool, Pool.complete_key]
  | exist blk sh => cases hs; rfl

/-- **The representation invariant of `TransBuffer`**, in every state clients can bring the buffer
to: the chain of each bucket is a finite doubly linked list, a node's `hash` names the chain it
occurs in, each key is in the bucket of its hash and in one node only, references count the live
handles, and no step changes the key of a referenced node. -/
theorem transBuffer_invariant (cfg : BufferConfig) (s : BufferState)
    (h : (bufferMachine cfg).Reachable s) :
    (∃ chain : Nat → List Nat, (∀ b, DLinked s.buf.links none (s.buf.firstAt b) (chain b) ∧
        (chain b).Nodup ∧
        (∀ i ∈ chain b, ∀ j ∈ chain b,
          (s.buf.metaAt i).next = some j ↔ (s.buf.metaAt j).prev = some i) ∧
        (∀ i, (chain b).head? = some i → (s.buf.metaAt i).prev = none) ∧
        (∀ i, (chain b).getLast? = some i → (s.buf.metaAt i).next = none)) ∧
      (∀ b i, (s.buf.metaAt i).hash = some b ↔ i ∈ chain b) ∧
      (∀ b, ∀ i ∈ chain b, cfg.hash (s.buf.metaAt i).block (s.buf.metaAt i).shard = b) ∧
      (∀ b, ∀ i ∈ chain b, ∀ c, ∀ j ∈ chain c, (s.buf.metaAt i).block = (s.buf.metaAt j).block →
        (s.buf.metaAt i).shard = (s.buf.metaAt j).shard → i = j)) ∧
    (∀ i, (s.buf.metaAt i).reference = s.handles.countP (·.pos = i)) ∧
    (∀ e s', s.step cfg e = some s' → ∀ i, 0 < (s.buf.metaAt i).reference →
      (s'.buf.metaAt i).block = (s.buf.metaAt i).block ∧
        (s'.buf.metaAt i).shard = (s.buf.metaAt i).shard) := by
  have hinv := bufferInv_reachable h
  obtain ⟨chain, hrep⟩ := hinv.rep
  refine ⟨⟨chain, fun b => ?_, hrep.hash_iff, hrep.key_hash, fun b i hi c j hj hb hsh => ?_⟩,
    hinv.count, fun e s' hstep i hi => ?_⟩
  · have hl := hrep.linked b
    exact ⟨hl, hrep.nodup b, fun i hi j hj => hl.next_eq_iff hi hj (by simp),
      fun i hi => hl.prev_head hi, fun i hi => hl.next_last hi⟩
  · have hkeyed : ∀ {b i}, i ∈ chain b → (s.buf.metaAt i).hash ≠ none := fun hmem => by
      rw [(hrep.hash_iff _ _).mpr hmem]; simp
    exact hrep.key_inj i j _ _ ⟨hkeyed hi, hb, hsh⟩ ⟨hkeyed hj, rfl, rfl⟩
  · have hkey := key_step hinv hstep hi
    have hh := hrep.ref_keyed i hi
    have hold : (s.buf.pool i).key = some ((s.buf.metaAt i).block, (s.buf.metaAt i).shard) := by
      simp [TransBuffer.pool, hh]
    rw [hold, TransBuffer.pool_key_iff] at hkey
    exact hkey.2

/-- Two threads that get the same key hold two references on one node. -/
theorem transBuffer_invariant_two_gets :
    ∃ s, (bufferMachine .small).Reachable s ∧ s.handles = [⟨0, false⟩, ⟨0, true⟩] ∧
      (s.buf.metaAt 0).reference = 2 := by
  obtain ⟨s, hs, hh⟩ : ∃ s, (bufferMachine .small).Reachable s ∧
      s.handles = [⟨0, false⟩, ⟨0, true⟩] :=
    ⟨_, .step (e := .get 7 0 true [true]) (.step (e := .get 7 0 true [true]) (.init rfl) trivial rfl)
      trivial rfl, rfl⟩
  refine ⟨s, hs, hh, ?_⟩
  rw [(transBuffer_invariant .small s hs).2.1 0, hh]
  rfl

end UnifiedCache.Cache
