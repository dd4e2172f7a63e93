import UnifiedCache.Infra.Proofs.SpscRingQueueProofs

/-!
# Proofs: the ring queue with one producer

With one producer the head it has read stays the head, so it never writes in a race and the invariant
of the queue holds in every run. A side may work with an old copy of the other one's index, which can
only make the queue look fuller to the producer, and emptier to the consumer, than it is.
-/

open Function Lib Lib.Ring

namespace UnifiedCache.Infra

variable {α : Type*} {cap : Nat}

namespace RingUse

variable {u : RingUse Unit α} {content : List α}

theorem Inv.inFlight (h : Inv cap u content) : u.inFlight = content.length := by
  have hlen := congrArg List.length h.history
  rw [List.length_map, List.length_append, List.length_map] at hlen
  rw [RingUse.inFlight]
  omega

theorem popStep_keeps (u : RingUse Unit α) : u.popStep.pushing = u.pushing ∧
    u.popStep.ring.head = u.ring.head ∧ u.popStep.inFlight ≤ u.inFlight := by
  unfold popStep SpscRingQueue.tryPop RingUse.inFlight
  cases u.pop with
  | head => exact ⟨rfl, rfl, Nat.le_refl _⟩
  | tail currentHead =>
    dsimp only
    split_ifs
    · exact ⟨rfl, rfl, Nat.le_refl _⟩
    · exact ⟨rfl, rfl, Nat.le_refl _⟩
  | read currentTail => exact ⟨rfl, rfl, Nat.le_refl _⟩
  | store currentTail value =>
    refine ⟨rfl, rfl, ?_⟩
    dsimp only
    rw [List.length_append]
    omega

end RingUse

namespace Spsc

/-- What the producer knows: the head it has read is the head, and it has seen room. -/
def ProducerOk (u : RingUse Unit α) (cap : Nat) : PushPc → Prop
  | .tail currentHead => currentHead = u.ring.head
  | .write currentHead _ => currentHead = u.ring.head ∧ u.inFlight + 1 < cap
  | .head | .store _ _ => True

/-- **The invariant.** -/
structure Inv (cap : Nat) (s : Spsc α) : Prop where
  ring : ∃ content, RingUse.Inv cap s.use content
  producer : ∀ v pc, s.use.pushing () = some (v, pc) → ProducerOk s.use cap pc
  consumer : ∀ currentHead, s.use.pop = .tail currentHead →
    currentHead = slot cap s.use.ring.tail s.atHead ∧ s.atHead < cap
  refused : ∀ n ∈ s.refused, n = cap - 1
  starved : ∀ n ∈ s.starved, n = 0

theorem inv_start (hcap : 0 < cap) : Inv cap (start cap : Spsc α) where
  ring := ⟨[], RingUse.inv_start hcap⟩
  producer _ _ h := by cases h
  consumer _ h := by cases h
  refused _ h := by cases h
  starved _ h := by cases h

theorem Inv.unraced {s : Spsc α} (hi : Inv cap s) : s.use.Unraced () := by
  obtain ⟨content, hring⟩ := hi.ring
  unfold RingUse.Unraced
  split
  · rename_i v currentHead nextHead hpush
    obtain ⟨hhead, hroom⟩ := hi.producer v _ hpush
    have hnext : nextHead = (currentHead + 1) % cap := hring.push () v _ hpush
    refine ⟨hhead.symm, ?_, fun _ hst => ?_⟩
    · rw [hring.inFlight] at hroom
      have hslot : (slot cap s.use.ring.tail content.length + 1) % cap =
          slot cap s.use.ring.tail (content.length + 1) := slot_slot
      rw [hnext, hhead, hring.head, hslot]
      exact slot_ne_self hring.tail_lt (Nat.succ_pos _) hroom
    · rw [RingUse.Storing, hpush] at hst
      exact hst
  · trivial

theorem Inv.call {s s' : Spsc α} (hi : Inv cap s) {blocking : Bool} {v : α}
    (h : s.call blocking v = some s') : Inv cap s' := by
  obtain ⟨content, hring⟩ := hi.ring
  unfold Spsc.call at h
  split at h
  · cases h
    refine { hi with ring := ⟨content, hring.enter () v⟩, producer := fun w pc hw => ?_ }
    change update s.use.pushing () (some (v, .head)) () = some (w, pc) at hw
    rw [update_self] at hw
    cases hw
    trivial
  · cases h

/-- **The next access of the producer.** -/
theorem Inv.produce {s s' : Spsc α} (hi : Inv cap s) (h : s.produce = some s') : Inv cap s' := by
  obtain ⟨content, hring⟩ := hi.ring
  unfold Spsc.produce at h
  cases hpush : s.use.pushing () with
  | none =>
    rw [hpush] at h
    cases h
  | some x =>
    obtain ⟨v, pc⟩ := x
    have hok := hi.producer v pc hpush
    have hafter : ∀ use ok, s.use.pushStep () = some (use, ok) →
        ∃ content', RingUse.Inv cap use content' :=
      fun use ok hstep => hring.pushStep hi.unraced hstep
    rw [hpush] at h
    unfold RingUse.pushStep at h hafter
    rw [hpush] at h hafter
    cases pc with
    | head =>
      cases h
      refine { hi with ring := hafter _ _ rfl, producer := fun w pc hw => ?_ }
      simp only [update_self] at hw
      cases hw
      rfl
    | tail currentHead =>
      have hhead : currentHead = s.use.ring.head := hok
      have hmod := hring.fixed.mod_eq hring.cap_pos (currentHead + 1)
      simp only [SpscRingQueue.tryPush] at h hafter
      by_cases hfull : s.use.ring.mod (currentHead + 1) = s.use.ring.tail
      · simp only [if_pos hfull, Bool.false_eq_true, if_false] at h hafter
        obtain ⟨content', hring'⟩ := hafter _ _ rfl
        split_ifs at h
        · cases h
          refine { hi with ring := ⟨content', hring'.enter () v⟩, producer := fun w pc hw => ?_ }
          simp only [RingUse.enter, update_self] at hw
          cases hw
          trivial
        · cases h
          refine { hi with
            ring := ⟨content', hring'⟩
            producer := fun w pc hw => ?_
            refused := fun n hn => ?_ }
          · simp only [update_self] at hw
            cases hw
          · rcases List.mem_cons.mp hn with rfl | hn
            · have hroom := hring.room
              rw [hring.inFlight]
              by_contra hne
              have hlt : content.length + 1 < cap := by omega
              have hslot : (slot cap s.use.ring.tail content.length + 1) % cap =
                  slot cap s.use.ring.tail (content.length + 1) := slot_slot
              rw [hmod, hhead, hring.head, hslot] at hfull
              exact slot_ne_self hring.tail_lt (Nat.succ_pos _) hlt hfull
            · exact hi.refused n hn
      · rw [if_neg hfull] at h hafter
        dsimp only at h hafter
        cases h
        refine { hi with ring := hafter _ _ rfl, producer := fun w pc hw => ?_ }
        simp only [update_self] at hw
        cases hw
        refine ⟨hhead, ?_⟩
        change s.use.inFlight + 1 < cap
        rw [hring.inFlight]
        refine hring.length_add_one_lt ?_
        rw [← hhead, ← hmod]
        exact hfull
    | write currentHead nextHead =>
      cases h
      refine { hi with ring := hafter _ _ rfl, producer := fun w pc hw => ?_ }
      simp only [update_self] at hw
      cases hw
      trivial
    | store currentHead nextHead =>
      cases h
      refine { hi with ring := hafter _ _ rfl, producer := fun w pc hw => ?_ }
      simp only [update_self] at hw
      cases hw

/-- **The next access of the consumer.** -/
theorem Inv.consume {s : Spsc α} (hi : Inv cap s) : Inv cap s.consume := by
  obtain ⟨content, hring⟩ := hi.ring
  obtain ⟨hpushing, hhead, hless⟩ := RingUse.popStep_keeps s.use
  have hproducer : ∀ v pc, s.use.popStep.pushing () = some (v, pc) →
      ProducerOk s.use.popStep cap pc := by
    intro v pc hw
    rw [hpushing] at hw
    have hok := hi.producer v pc hw
    cases pc with
    | head | store _ _ => trivial
    | tail currentHead => exact hok.trans hhead.symm
    | write currentHead _ => exact ⟨hok.1.trans hhead.symm, by have := hok.2; omega⟩
  unfold Spsc.consume
  cases hpop : s.use.pop with
  | head =>
    refine { hi with ring := hring.popStep, producer := hproducer, consumer := fun ch hch => ?_ }
    have hstep : s.use.popStep = { s.use with pop := .tail s.use.ring.head } := by
      simp [RingUse.popStep, SpscRingQueue.tryPop, hpop]
    change s.use.popStep.pop = .tail ch at hch
    change ch = slot cap s.use.popStep.ring.tail s.use.inFlight ∧ s.use.inFlight < cap
    rw [hstep] at hch ⊢
    cases hch
    rw [hring.inFlight]
    exact ⟨hring.head, hring.room⟩
  | tail currentHead =>
    obtain ⟨hcur, hlt⟩ := hi.consumer currentHead hpop
    by_cases heq : s.use.ring.tail = currentHead
    · simp only [SpscRingQueue.tryPop, if_pos heq]
      have hstep : s.use.popStep = { s.use with pop := .head } := by
        simp [RingUse.popStep, SpscRingQueue.tryPop, hpop, heq]
      refine { hi with
        ring := hring.popStep
        producer := hproducer
        consumer := fun ch hch => ?_
        starved := fun n hn => ?_ }
      · change s.use.popStep.pop = .tail ch at hch
        rw [hstep] at hch
        cases hch
      · rcases List.mem_cons.mp hn with rfl | hn
        · by_contra hne
          refine slot_ne_self hring.tail_lt (Nat.pos_of_ne_zero hne) hlt ?_
          rw [← hcur, heq]
        · exact hi.starved n hn
    · simp only [SpscRingQueue.tryPop, if_neg heq]
      refine { hi with ring := hring.popStep, producer := hproducer, consumer := fun ch hch => ?_ }
      change s.use.popStep.pop = .tail ch at hch
      simp [RingUse.popStep, SpscRingQueue.tryPop, hpop, heq] at hch
  | read currentTail | store currentTail value =>
    refine { hi with ring := hring.popStep, producer := hproducer, consumer := fun ch hch => ?_ }
    change s.use.popStep.pop = .tail ch at hch
    simp [RingUse.popStep, SpscRingQueue.tryPop, hpop] at hch

theorem Inv.step {s s' : Spsc α} {e : SpscEvent α} (hi : Inv cap s) (h : s.step e = some s') :
    Inv cap s' := by
  cases e with
  | push v => exact hi.call h
  | tryPush v => exact hi.call h
  | produce => exact hi.produce h
  | consume =>
    cases h
    exact hi.consume

theorem Inv.reading {s : Spsc α} (hi : Inv cap s) {i : Nat} (hr : s.Reading i) :
    i = s.use.ring.tail ∧ 0 < s.use.inFlight := by
  obtain ⟨content, hring⟩ := hi.ring
  have hpop := hring.pop
  rw [hring.inFlight]
  rcases hr with hr | ⟨value, hr⟩
  · rw [hr] at hpop
    exact ⟨hpop.2.1, List.length_pos_of_ne_nil hpop.2.2⟩
  · rw [hr] at hpop
    obtain ⟨-, htail, v, rest, rfl, -⟩ := hpop
    exact ⟨htail, Nat.succ_pos _⟩

theorem Inv.write_free {s : Spsc α} (hi : Inv cap s) {v : α} {i next : Nat}
    (hw : s.use.pushing () = some (v, .write i next)) :
    ∀ k < s.use.inFlight, i ≠ (s.use.ring.tail + k) % cap := by
  obtain ⟨content, hring⟩ := hi.ring
  obtain ⟨hhead, hroom⟩ := hi.producer v _ hw
  intro k hk
  rw [hhead, hring.head, ← hring.inFlight]
  exact slot_ne _ (by omega) (by omega) (Nat.ne_of_gt hk)

end Spsc

/-- **The queue is a FIFO channel** between one producer and one consumer: the values handed over are
the first of those whose push reported success, fewer than `capacity` are in flight, the producer
writes no slot that holds a value in flight or that the consumer is reading, and calls fail only when
the queue was full, or empty, at the read of the other side's index. -/
theorem spsc_fifo (α : Type*) (capacity : Nat) (hcap : 2 ≤ capacity) (s : Spsc α)
    (hs : (spscMachine α capacity).Reachable s) :
    s.use.popped <+: s.use.pushed.map some ∧ s.use.inFlight ≤ capacity - 1 ∧
    (∀ v i next, s.use.pushing () = some (v, .write i next) →
      ¬ s.Reading i ∧ ∀ k < s.use.inFlight, i ≠ (s.use.ring.tail + k) % capacity) ∧
    (∀ n ∈ s.refused, n = capacity - 1) ∧ ∀ n ∈ s.starved, n = 0 := by
  have hi : s.Inv capacity := by
    refine Machine.Reach.inv (I := Spsc.Inv capacity) ?_ ?_ hs
    · rintro s rfl
      exact Spsc.inv_start (by omega)
    · intro s e s' hi _ hstep
      exact hi.step hstep
  obtain ⟨content, hring⟩ := hi.ring
  refine ⟨⟨content.map some, hring.history.symm⟩, ?_, fun v i next hw => ?_, hi.refused, hi.starved⟩
  · have := hring.room
    rw [hring.inFlight]
    omega
  · refine ⟨fun hr => ?_, hi.write_free hw⟩
    obtain ⟨htail, hpos⟩ := hi.reading hr
    refine hi.write_free hw 0 hpos ?_
    rw [htail, Nat.add_zero, Nat.mod_eq_of_lt hring.tail_lt]

/-- A queue of three slots: a `TryPop` fails, 7 and 8 are pushed, 9 is refused, 7 is popped. -/
theorem spsc_fifo_three : ∃ s, (spscMachine Nat 3).Reachable s ∧
    (s.use.pushed = [7, 8] ∧ s.use.popped = [some 7] ∧ s.refused = [2] ∧ s.starved = [0]) ∧
    s.use.popped <+: s.use.pushed.map some := by
  obtain ⟨s, hs, hp⟩ := Machine.exists_reachable_of_run (M := spscMachine Nat 3) (s := .start 3)
    (l := [.consume, .consume, .tryPush 7, .produce, .produce, .produce, .produce, .push 8,
      .produce, .produce, .produce, .produce, .tryPush 9, .produce, .produce, .consume, .consume,
      .consume, .consume]) (p := fun s => s.use.pushed = [7, 8] ∧ s.use.popped = [some 7] ∧
      s.refused = [2] ∧ s.starved = [0]) rfl (by decide +kernel)
  exact ⟨s, hs, hp, (spsc_fifo Nat 3 (by decide) s hs).1⟩

end UnifiedCache.Infra
