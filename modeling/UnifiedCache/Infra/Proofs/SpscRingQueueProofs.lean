import UnifiedCache.Infra.SpscRingQueue
import UnifiedCache.Lib.Ring

/-!
# Proofs: the ring queue

The values between `tail_` and `head_` are those that were pushed and not yet handed over
(`RingUse.Inv`). A producer that writes the slot at the head and stores `head_` before another one
writes keeps this.
-/

open Function Lib Lib.Ring

namespace UnifiedCache.Infra

variable {τ α : Type*}

/-- The members `Setup` fixes. -/
structure SpscRingQueue.Fixed (q : SpscRingQueue α) (cap : Nat) : Prop where
  capacity : q.capacity = cap
  pow2 : q.pow2 = (cap &&& (cap - 1) == 0)
  mask : q.mask = cap - 1

/-- **Both branches of `Mod` are the remainder.** -/
theorem SpscRingQueue.Fixed.mod_eq {q : SpscRingQueue α} {cap : Nat} (h : q.Fixed cap)
    (hcap : 0 < cap) (n : Nat) : q.mod n = n % cap := by
  unfold SpscRingQueue.mod
  rw [h.pow2, h.mask, h.capacity]
  split
  · rename_i hpow
    rw [beq_iff_eq, Nat.and_sub_one_eq_zero_iff_isPowerOfTwo (by omega)] at hpow
    obtain ⟨k, rfl⟩ := hpow
    exact Nat.and_two_pow_sub_one_eq_mod n k
  · rfl

namespace RingUse

variable {cap : Nat}

/-- What the consumer knows; it may already have moved the first value out of its slot. -/
def PopOk (u : RingUse τ α) (cap : Nat) (content : List α) : PopPc α → Prop
  | .head => Holds u.ring.buffer cap u.ring.tail 0 content
  | .tail currentHead => Holds u.ring.buffer cap u.ring.tail 0 content ∧
      ∃ m ≤ content.length, currentHead = slot cap u.ring.tail m
  | .read currentTail => Holds u.ring.buffer cap u.ring.tail 0 content ∧
      currentTail = u.ring.tail ∧ content ≠ []
  | .store currentTail value => Holds u.ring.buffer cap u.ring.tail 1 content ∧
      currentTail = u.ring.tail ∧ ∃ v rest, content = v :: rest ∧ value = some v

/-- What a producer knows. -/
def PushOk (u : RingUse τ α) (cap : Nat) (value : α) : PushPc → Prop
  | .head | .tail _ => True
  | .write currentHead nextHead => nextHead = (currentHead + 1) % cap
  | .store currentHead nextHead => nextHead = (currentHead + 1) % cap ∧
      currentHead = u.ring.head ∧ nextHead ≠ u.ring.tail ∧ u.ring.buffer currentHead = some value

/-- **The invariant of the queue**: `content` was pushed and not yet handed over. -/
structure Inv (cap : Nat) (u : RingUse τ α) (content : List α) : Prop where
  fixed : u.ring.Fixed cap
  tail_lt : u.ring.tail < cap
  head : u.ring.head = slot cap u.ring.tail content.length
  room : content.length < cap
  history : u.pushed.map some = u.popped ++ content.map some
  pop : u.PopOk cap content u.pop
  push : ∀ t v pc, u.pushing t = some (v, pc) → u.PushOk cap v pc
  storing : ∀ t t', u.Storing t → u.Storing t' → t = t'

theorem inv_start (hcap : 0 < cap) : Inv cap (start cap : RingUse τ α) [] where
  fixed := ⟨rfl, rfl, rfl⟩
  tail_lt := hcap
  head := (slot_zero hcap).symm
  room := hcap
  history := rfl
  pop := Holds.nil _ _ _ _
  push := fun t v pc h => by cases h
  storing := fun t _ h => by cases h

variable {u : RingUse τ α} {content : List α}

theorem Inv.cap_pos (h : Inv cap u content) : 0 < cap :=
  Nat.lt_of_le_of_lt (Nat.zero_le _) h.tail_lt

/-! ## The consumer -/

theorem Inv.length_add_one_lt (h : Inv cap u content)
    (hnext : (u.ring.head + 1) % cap ≠ u.ring.tail) : content.length + 1 < cap := by
  have hroom := h.room
  by_contra hc
  have hlen : content.length + 1 = cap := by omega
  apply hnext
  rw [h.head, slot, Nat.mod_add_mod, Nat.add_assoc, hlen, Nat.add_mod_right,
    Nat.mod_eq_of_lt h.tail_lt]

/-- **The next access of the consumer keeps the invariant.** -/
theorem Inv.popStep (h : Inv cap u content) :
    ∃ content', Inv cap u.popStep content' := by
  have hcap := h.cap_pos
  have hpop := h.pop
  cases hpc : u.pop with
  | head =>
    rw [hpc] at hpop
    refine ⟨content, ?_⟩
    have hstep : u.popStep = { u with pop := .tail u.ring.head } := by
      simp [RingUse.popStep, SpscRingQueue.tryPop, hpc]
    rw [hstep]
    exact { h with pop := ⟨hpop, content.length, Nat.le_refl _, h.head⟩ }
  | tail currentHead =>
    rw [hpc] at hpop
    obtain ⟨hholds, m, hm, hcur⟩ := hpop
    refine ⟨content, ?_⟩
    by_cases heq : u.ring.tail = currentHead
    · have hstep : u.popStep = { u with pop := .head } := by
        simp [RingUse.popStep, SpscRingQueue.tryPop, hpc, heq]
      rw [hstep]
      exact { h with pop := hholds }
    · have hstep : u.popStep = { u with pop := .read u.ring.tail } := by
        simp [RingUse.popStep, SpscRingQueue.tryPop, hpc, heq]
      rw [hstep]
      refine { h with pop := ⟨hholds, rfl, ?_⟩ }
      rintro rfl
      obtain rfl : m = 0 := by simpa using hm
      rw [slot_zero h.tail_lt] at hcur
      exact heq hcur.symm
  | read currentTail =>
    rw [hpc] at hpop
    obtain ⟨hholds, rfl, hne⟩ := hpop
    obtain ⟨v, rest, rfl⟩ := List.exists_cons_of_ne_nil hne
    have hfirst := hholds.head h.tail_lt
    have hroom := h.room
    have hstep : u.popStep = { u with
        ring := { u.ring with buffer := update u.ring.buffer u.ring.tail none }
        pop := .store u.ring.tail (some v) } := by
      simp [RingUse.popStep, SpscRingQueue.tryPop, hpc, hfirst]
    rw [hstep]
    refine ⟨v :: rest, { h with
      fixed := ⟨h.fixed.capacity, h.fixed.pow2, h.fixed.mask⟩
      pop := ⟨?_, rfl, v, rest, rfl, rfl⟩
      push := fun t w pc ht => ?_ }⟩
    · refine Holds.write (fun k _ hk => hholds k (Nat.zero_le k) hk) fun k hn hk => ?_
      exact (slot_ne_self h.tail_lt hn (Nat.lt_trans hk hroom)).symm
    · have hok := h.push t w pc ht
      cases pc with
      | head | tail _ => trivial
      | write ch nh => exact hok
      | store ch nh =>
        obtain ⟨hnh, hch, hnt, hbuf⟩ := hok
        refine ⟨hnh, hch, hnt, ?_⟩
        have hne' : ch ≠ u.ring.tail := by
          rw [hch, h.head]
          exact slot_ne_self h.tail_lt (Nat.zero_lt_succ rest.length) hroom
        change update u.ring.buffer u.ring.tail none ch = some w
        rw [update_of_ne hne']
        exact hbuf
  | store currentTail value =>
    rw [hpc] at hpop
    obtain ⟨hholds, rfl, v, rest, rfl, rfl⟩ := hpop
    have htail : u.ring.mod (u.ring.tail + 1) = slot cap u.ring.tail 1 := h.fixed.mod_eq hcap _
    have hstep : u.popStep = { u with
        ring := { u.ring with tail := slot cap u.ring.tail 1 }
        pop := .head
        popped := u.popped ++ [some v] } := by
      simp [RingUse.popStep, SpscRingQueue.tryPop, hpc, htail]
    rw [hstep]
    have hroom := h.room
    refine ⟨rest,
      { fixed := ⟨h.fixed.capacity, h.fixed.pow2, h.fixed.mask⟩
        tail_lt := slot_lt hcap
        head := ?_
        room := by simp at hroom; omega
        history := by simpa using h.history
        pop := hholds.tail
        push := fun t w pc ht => ?_
        storing := h.storing }⟩
    · rw [h.head, List.length_cons]
      change slot cap u.ring.tail (rest.length + 1) = slot cap (slot cap u.ring.tail 1) rest.length
      rw [slot_slot, Nat.add_comm]
    · have hok := h.push t w pc ht
      cases pc with
      | head | tail _ => trivial
      | write ch nh => exact hok
      | store ch nh =>
        obtain ⟨hnh, hch, hnt, hbuf⟩ := hok
        refine ⟨hnh, hch, ?_, hbuf⟩
        have hlt : (v :: rest).length + 1 < cap := by
          refine h.length_add_one_lt ?_
          rw [← hch, ← hnh]
          exact hnt
        change nh ≠ slot cap u.ring.tail 1
        rw [hnh, hch, h.head]
        change slot cap (slot cap u.ring.tail _) 1 ≠ _
        rw [slot_slot]
        refine slot_ne _ hlt ?_ (by simp)
        simp at hlt
        omega

theorem PopOk.write {pc : PopPc α} {v : α} (h : u.PopOk cap content pc)
    (hroom : content.length < cap) :
    PopOk { u with ring := { u.ring with
      buffer := update u.ring.buffer (slot cap u.ring.tail content.length) (some v) } }
      cap content pc := by
  have hw : ∀ n, Holds u.ring.buffer cap u.ring.tail n content →
      Holds (update u.ring.buffer (slot cap u.ring.tail content.length) (some v)) cap
        u.ring.tail n content := by
    intro n hh
    refine hh.write fun k _ hk => ?_
    exact slot_ne _ hroom (Nat.lt_trans hk hroom) (Nat.ne_of_gt hk)
  cases pc with
  | head => exact hw 0 h
  | tail currentHead => exact ⟨hw 0 h.1, h.2⟩
  | read currentTail => exact ⟨hw 0 h.1, h.2⟩
  | store currentTail value => exact ⟨hw 1 h.1, h.2⟩

theorem PopOk.snoc {pc : PopPc α} {v : α} (h : u.PopOk cap content pc) (head : Nat)
    (hv : u.ring.buffer (slot cap u.ring.tail content.length) = some v) :
    PopOk { u with ring := { u.ring with head := head } } cap (content ++ [v]) pc := by
  cases pc with
  | head => exact Holds.snoc h hv
  | tail currentHead =>
    obtain ⟨hh, m, hm, hcur⟩ := h
    refine ⟨hh.snoc hv, m, ?_, hcur⟩
    rw [List.length_append]
    omega
  | read currentTail => exact ⟨h.1.snoc hv, h.2.1, by simp⟩
  | store currentTail value =>
    obtain ⟨hh, hct, w, rest, rfl, hval⟩ := h
    exact ⟨hh.snoc hv, hct, w, rest ++ [v], rfl, hval⟩

/-! ## The producers -/

variable [DecidableEq τ]

theorem storing_of_update {u' : RingUse τ α} {t t' : τ} {x : Option (α × PushPc)}
    (hu : u'.pushing = update u.pushing t x) (hns : ∀ v ch nh, x ≠ some (v, .store ch nh))
    (h : u'.Storing t') :
    u.Storing t' ∧ t' ≠ t := by
  unfold Storing at h ⊢
  rw [hu] at h
  by_cases ht : t' = t
  · subst ht
    rw [update_self] at h
    split at h
    · rename_i v ch nh
      exact absurd rfl (hns v ch nh)
    · exact h.elim
  · rw [update_of_ne ht] at h
    exact ⟨h, ht⟩

theorem Inv.pushRead (h : Inv cap u content) {t : τ} {x : Option (α × PushPc)}
    (hx : ∀ v pc, x = some (v, pc) → u.PushOk cap v pc)
    (hns : ∀ v ch nh, x ≠ some (v, .store ch nh)) :
    Inv cap { u with pushing := update u.pushing t x } content := by
  refine { h with push := fun t' v pc ht => ?_, storing := fun t1 t2 h1 h2 => ?_ }
  · change update u.pushing t x t' = some (v, pc) at ht
    by_cases htt : t' = t
    · subst htt
      rw [update_self] at ht
      exact hx v pc ht
    · rw [update_of_ne htt] at ht
      exact h.push t' v pc ht
  · exact h.storing t1 t2 (storing_of_update (u := u) rfl hns h1).1
      (storing_of_update (u := u) rfl hns h2).1

theorem Inv.enter (h : Inv cap u content) (t : τ) (v : α) :
    Inv cap (u.enter t v) content := by
  refine h.pushRead (fun w pc hx => ?_) fun w ch nh hx => ?_
  · cases hx
    trivial
  · cases hx

theorem Inv.pushWrite (h : Inv cap u content) {t : τ} {v : α} {ch nh : Nat} (hch : u.ring.head = ch)
    (hnh : nh = (ch + 1) % cap) (hnt : nh ≠ u.ring.tail) (hno : ∀ t', ¬ u.Storing t') :
    Inv cap { u with
      ring := { u.ring with buffer := update u.ring.buffer ch (some v) }
      pushing := update u.pushing t (some (v, .store ch nh)) } content := by
  have hslot : ch = slot cap u.ring.tail content.length := by rw [← hch, h.head]
  refine { h with
    fixed := ⟨h.fixed.capacity, h.fixed.pow2, h.fixed.mask⟩
    pop := ?_
    push := fun t' w pc ht => ?_
    storing := fun t1 t2 h1 h2 => ?_ }
  · have hpop := h.pop.write (v := v) h.room
    rw [← hslot] at hpop
    cases hpc : u.pop with
    | head | tail _ | read _ | store _ _ =>
      rw [hpc] at hpop
      exact hpop
  · change update u.pushing t _ t' = some (w, pc) at ht
    by_cases htt : t' = t
    · subst htt
      rw [update_self] at ht
      cases ht
      exact ⟨hnh, hch.symm, hnt, update_self ..⟩
    · rw [update_of_ne htt] at ht
      have hok := h.push t' w pc ht
      cases pc with
      | head | tail _ => trivial
      | write ch' nh' => exact hok
      | store ch' nh' =>
        refine absurd ?_ (hno t')
        rw [Storing, ht]
        trivial
  · have hall : ∀ t', (Storing { u with
        ring := { u.ring with buffer := update u.ring.buffer ch (some v) }
        pushing := update u.pushing t (some (v, .store ch nh)) } t') → t' = t := by
      intro t' ht'
      by_contra htt
      refine hno t' ?_
      unfold Storing at ht' ⊢
      dsimp only at ht'
      rwa [update_of_ne htt] at ht'
    rw [hall t1 h1, hall t2 h2]

theorem Inv.pushStore (h : Inv cap u content) {t : τ} {v : α} {ch nh : Nat}
    (ht : u.pushing t = some (v, .store ch nh)) :
    Inv cap { u with
      ring := { u.ring with head := nh }
      pushing := update u.pushing t none
      pushed := u.pushed ++ [v] } (content ++ [v]) := by
  obtain ⟨hnh, hch, hnt, hbuf⟩ := h.push t v _ ht
  have hlt : content.length + 1 < cap := by
    refine h.length_add_one_lt ?_
    rw [← hch, ← hnh]
    exact hnt
  have hslot : ch = slot cap u.ring.tail content.length := by rw [hch, h.head]
  have hme : u.Storing t := by
    rw [Storing, ht]
    trivial
  refine
    { fixed := ⟨h.fixed.capacity, h.fixed.pow2, h.fixed.mask⟩
      tail_lt := h.tail_lt
      head := ?_
      room := by simpa using hlt
      history := by simp [h.history]
      pop := ?_
      push := fun t' w pc ht' => ?_
      storing := fun t1 t2 h1 h2 => ?_ }
  · change nh = slot cap u.ring.tail (content ++ [v]).length
    rw [hnh, hslot, List.length_append, List.length_singleton, ← slot_slot]
    rfl
  · rw [hslot] at hbuf
    have hpop := h.pop.snoc nh hbuf
    cases hpc : u.pop with
    | head | tail _ | read _ | store _ _ =>
      rw [hpc] at hpop
      exact hpop
  · change update u.pushing t _ t' = some (w, pc) at ht'
    by_cases htt : t' = t
    · subst htt
      rw [update_self] at ht'
      cases ht'
    · rw [update_of_ne htt] at ht'
      have hok := h.push t' w pc ht'
      cases pc with
      | head | tail _ => trivial
      | write ch' nh' => exact hok
      | store ch' nh' =>
        refine absurd (h.storing t' t ?_ hme) htt
        rw [Storing, ht']
        trivial
  · have hns : ∀ (w : α) (ch' nh' : Nat), (none : Option (α × PushPc)) ≠ some (w, .store ch' nh') := by
      intro w ch' nh' hc
      cases hc
    exact h.storing t1 t2 (storing_of_update (u := u) rfl hns h1).1
      (storing_of_update (u := u) rfl hns h2).1

/-- **The next access of a producer keeps the invariant**, if it does not write its slot in a race. -/
theorem Inv.pushStep {u' : RingUse τ α} (h : Inv cap u content) {t : τ} {ok : Option Bool}
    (hC : u.Unraced t) (hstep : u.pushStep t = some (u', ok)) :
    ∃ content', Inv cap u' content' := by
  have hcap := h.cap_pos
  unfold RingUse.pushStep at hstep
  cases ht : u.pushing t with
  | none =>
    rw [ht] at hstep
    cases hstep
  | some x =>
    obtain ⟨v, pc⟩ := x
    rw [ht] at hstep
    have hok := h.push t v pc ht
    cases pc with
    | head =>
      cases hstep
      refine ⟨content, h.pushRead (fun w pc hx => ?_) fun w ch nh hx => ?_⟩
      · cases hx
        trivial
      · cases hx
    | tail ch =>
      simp only [SpscRingQueue.tryPush] at hstep
      by_cases hfull : u.ring.mod (ch + 1) = u.ring.tail
      · rw [if_pos hfull] at hstep
        cases hstep
        refine ⟨content, h.pushRead (fun w pc hx => ?_) fun w ch nh hx => ?_⟩
        · cases hx
        · cases hx
      · rw [if_neg hfull] at hstep
        cases hstep
        refine ⟨content, h.pushRead (fun w pc hx => ?_) fun w ch nh hx => ?_⟩
        · cases hx
          exact h.fixed.mod_eq hcap _
        · cases hx
    | write ch nh =>
      rw [Unraced, ht] at hC
      cases hstep
      exact ⟨content, h.pushWrite hC.1 hok hC.2.1 hC.2.2⟩
    | store ch nh =>
      cases hstep
      exact ⟨content ++ [v], h.pushStore ht⟩

/-! ## What the invariant says about deliveries -/

omit [DecidableEq τ] in
theorem popStep_full (hpc : u.pop = .head) (hne : u.ring.tail ≠ u.ring.head) :
    (RingUse.popStep^[4] u).popped = u.popped ++ [u.ring.buffer u.ring.tail] := by
  simp [Function.iterate_succ_apply, RingUse.popStep, SpscRingQueue.tryPop, hpc, hne]

omit [DecidableEq τ] in
theorem Inv.exists_popped {v : α} {rest : List α} (h : Inv cap u (v :: rest)) :
    ∃ n, (RingUse.popStep^[n] u).popped = u.popped ++ [some v] := by
  have hpop := h.pop
  have hne : u.ring.tail ≠ u.ring.head := by
    rw [h.head]
    exact (slot_ne_self h.tail_lt (Nat.zero_lt_succ rest.length) h.room).symm
  have hfirst : Holds u.ring.buffer cap u.ring.tail 0 (v :: rest) →
      u.ring.buffer u.ring.tail = some v := fun hholds => hholds.head h.tail_lt
  cases hpc : u.pop with
  | head =>
    rw [hpc] at hpop
    exact ⟨4, by rw [popStep_full hpc hne, hfirst hpop]⟩
  | tail currentHead =>
    rw [hpc] at hpop
    by_cases heq : u.ring.tail = currentHead
    · -- the consumer has seen an empty queue and asks again
      have hstep : u.popStep = { u with pop := .head } := by
        simp [RingUse.popStep, SpscRingQueue.tryPop, hpc, heq]
      have hfull := popStep_full (u := { u with pop := .head }) rfl hne
      refine ⟨5, ?_⟩
      rw [Function.iterate_succ_apply, hstep, hfull, hfirst hpop.1]
    · refine ⟨3, ?_⟩
      simp [Function.iterate_succ_apply, RingUse.popStep, SpscRingQueue.tryPop, hpc, heq,
        hfirst hpop.1]
  | read currentTail =>
    rw [hpc] at hpop
    obtain ⟨hholds, rfl, -⟩ := hpop
    refine ⟨2, ?_⟩
    simp [Function.iterate_succ_apply, RingUse.popStep, SpscRingQueue.tryPop, hpc, hfirst hholds]
  | store currentTail value =>
    rw [hpc] at hpop
    obtain ⟨-, rfl, w, rest', heq, rfl⟩ := hpop
    cases heq
    refine ⟨1, ?_⟩
    simp [RingUse.popStep, SpscRingQueue.tryPop, hpc]

omit [DecidableEq τ] in
/-- **Deliveries.** -/
theorem Inv.delivers (h : Inv cap u content) (hnd : u.pushed.Nodup) : u.Delivers where
  inOrder := ⟨content.map some, h.history⟩
  once := hnd
  next := by
    intro v hv
    have hlen := congrArg List.length h.history
    have hget : (u.pushed.map some)[u.popped.length]? = some (some v) := by
      rw [List.getElem?_map, hv]
      rfl
    rw [h.history, List.getElem?_append_right (Nat.le_refl _), Nat.sub_self] at hget
    cases content with
    | nil => cases hget
    | cons w rest =>
      obtain rfl : w = v := by simpa using hget
      exact h.exists_popped

end RingUse

end UnifiedCache.Infra
