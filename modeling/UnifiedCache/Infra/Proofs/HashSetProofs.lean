import UnifiedCache.Infra.HashSet

/-!
# Proofs: the hash set

Every probe is a walk over `Probing.slot` from the home of the key on. A shard that is about to take
a key has an empty slot, because it has been rehashed if it was nearly full, so the walk ends there,
and the two other ways out of `Insert` are never taken.
-/

open Function Lib

namespace UnifiedCache.Infra

variable {κ : Type*} {h : HashParams κ} {m fuel i n x firstDeleted : Nat}

/-! ## Counting slots -/

theorem countP_range_update {f g : Nat → Bool} {p : Nat} (hp : p < n)
    (hfg : ∀ q, q ≠ p → g q = f q) :
    (List.range n).countP g + (if f p then 1 else 0) =
      (List.range n).countP f + (if g p then 1 else 0) := by
  induction n with
  | zero => omega
  | succ n ih =>
    rw [List.range_succ, List.countP_append, List.countP_append, List.countP_singleton,
      List.countP_singleton]
    by_cases hpn : p = n
    · subst hpn
      have hsame : (List.range p).countP g = (List.range p).countP f := by
        refine List.countP_congr fun q hq => ?_
        rw [hfg q (Nat.ne_of_lt (List.mem_range.mp hq))]
      rw [hsame]
      cases f p <;> cases g p <;> simp
    · have := ih (by omega)
      rw [hfg n (Ne.symm hpn)]
      omega

namespace Shard

/-- A key is in a shard. -/
def Has (s : Shard κ) (key : κ) : Prop := ∃ p < s.cap, (s.keys p).value = some key

theorem count_update (s t : Shard κ) (state : SlotState) (slot : Slot κ) {p : Nat} (hp : p < s.cap)
    (hkeys : t.keys = update s.keys p slot) (hcap : t.cap = s.cap) :
    t.count state + (if (s.keys p).state = state then 1 else 0) =
      s.count state + (if slot.state = state then 1 else 0) := by
  have hcount := countP_range_update (n := s.cap) (p := p)
    (f := fun q => decide ((s.keys q).state = state))
    (g := fun q => decide ((t.keys q).state = state)) hp fun q hq => by
      rw [hkeys, update_of_ne hq]
  have hslot : t.keys p = slot := by rw [hkeys, update_self]
  rw [count, count, hcap]
  rw [hslot] at hcount
  simpa only [decide_eq_true_eq] using hcount

variable {s : Shard κ}

theorem exists_empty (hlt : s.count .occupied + s.count .deleted < s.cap) :
    ∃ p < s.cap, (s.keys p).state = .empty := by
  by_contra hno
  have hall : ∀ n ≤ s.cap,
      ((List.range n).countP fun p => decide ((s.keys p).state = .occupied)) +
        ((List.range n).countP fun p => decide ((s.keys p).state = .deleted)) = n := by
    intro n
    induction n with
    | zero => intro _; rfl
    | succ n ih =>
      intro hn
      have hprev := ih (by omega)
      rw [List.range_succ, List.countP_append, List.countP_append, List.countP_singleton,
        List.countP_singleton]
      cases hst : (s.keys n).state with
      | empty => exact absurd ⟨n, by omega, hst⟩ hno
      | occupied | deleted =>
        simp only [decide_true, if_true, reduceCtorEq, decide_false, Bool.false_eq_true, if_false]
        omega
  have := hall s.cap (Nat.le_refl _)
  unfold count at hlt
  omega

/-! ## Probing -/

theorem probe_slot {cap : Nat} (hcap : cap = 2 ^ m) :
    probe (Probing.slot cap x i) cap = Probing.slot cap x (i + 1) := by
  subst hcap
  rw [probe, Nat.and_two_pow_sub_one_eq_mod, Probing.slot_succ]

theorem start_slot (hcap : s.cap = 2 ^ m) (key : κ) :
    s.start h key = Probing.slot s.cap (h.home key) 0 := by
  rw [start, hcap, Nat.and_two_pow_sub_one_eq_mod, Probing.slot_zero]

/-- **The probe for an empty slot** ends at the first one. -/
theorem findEmpty_spec (hcap : s.cap = 2 ^ m) (hex : ∃ p < s.cap, (s.keys p).state = .empty)
    (hi : i + fuel = s.cap) (hover : ∀ j < i, (s.keys (Probing.slot s.cap x j)).state ≠ .empty) :
    ∃ j < s.cap, s.findEmpty fuel (Probing.slot s.cap x i) = some (Probing.slot s.cap x j) ∧
      (s.keys (Probing.slot s.cap x j)).state = .empty ∧
      ∀ j' < j, (s.keys (Probing.slot s.cap x j')).state ≠ .empty := by
  induction fuel generalizing i with
  | zero =>
    obtain ⟨p, hp, hempty⟩ := hex
    obtain ⟨j, hj, rfl⟩ := Probing.exists_slot x hp
    exact absurd hempty (hover j (by omega))
  | succ fuel ih =>
    unfold findEmpty
    by_cases hempty : (s.keys (Probing.slot s.cap x i)).state = .empty
    · rw [if_pos hempty]
      exact ⟨i, by omega, rfl, hempty, hover⟩
    · rw [if_neg hempty, probe_slot hcap]
      refine ih (by omega) fun j hj => ?_
      rcases Nat.lt_succ_iff_lt_or_eq.mp hj with hj | rfl
      · exact hover j hj
      · exact hempty

/-! ## Changing one slot -/

theorem value_of_not_occupied {slot : Slot κ} (hs : slot.state ≠ .occupied) : slot.value = none :=
  if_neg hs

theorem emplace_keys (s : Shard κ) (p : Nat) (key : κ) :
    ((s.emplace p key).keys p).value = some key ∧
      ∀ q, q ≠ p → (s.emplace p key).keys q = s.keys q := by
  refine ⟨?_, fun q hq => update_of_ne hq _ _⟩
  change (update s.keys p ⟨some key, .occupied⟩ p).value = some key
  rw [update_self]
  rfl

/-- **A key that is in no slot** goes into a slot without a key that its probe reaches. -/
theorem WellFormed.emplace (hw : s.WellFormed h) {key : κ} (tombstones : Nat)
    (habsent : ∀ p < s.cap, (s.keys p).value ≠ some key) (hi : i < s.cap)
    (hover : ∀ j < i, (s.keys (Probing.slot s.cap (h.home key) j)).state ≠ .empty)
    (hfree : (s.keys (Probing.slot s.cap (h.home key) i)).state ≠ .occupied)
    (htomb : tombstones + (if (s.keys (Probing.slot s.cap (h.home key) i)).state = .deleted
      then 1 else 0) = s.tombstones) :
    (({ s with tombstones := tombstones } : Shard κ).emplace
        (Probing.slot s.cap (h.home key) i) key).WellFormed h ∧
      ∀ k, (({ s with tombstones := tombstones } : Shard κ).emplace
        (Probing.slot s.cap (h.home key) i) key).Has k ↔ k = key ∨ s.Has k := by
  have hp : Probing.slot s.cap (h.home key) i < s.cap := Probing.slot_lt (by omega) _ _
  generalize hslot : Probing.slot s.cap (h.home key) i = p at hfree htomb hp
  obtain ⟨hnew, hold⟩ := emplace_keys ({ s with tombstones := tombstones } : Shard κ) p key
  have hvalue : (s.keys p).value = none := value_of_not_occupied hfree
  refine ⟨⟨hw.cap, fun q hq hocc => ?_, ?_, ?_, ?_⟩, fun k => ⟨?_, ?_⟩⟩
  · by_cases hqp : q = p
    · subst hqp
      change (update s.keys q _ q).key.isSome = true
      rw [update_self]
      rfl
    · rw [hold q hqp] at hocc ⊢
      exact hw.key q hq hocc
  · refine hw.kept.insert habsent hi hover (hslot ▸ hnew) (fun q hq => ?_) fun q hq => ?_
    · rw [hold q (hslot ▸ hq)]
    · by_cases hqp : q = p
      · subst hqp
        change (update s.keys q _ q).state ≠ .empty
        rw [update_self]
        exact SlotState.noConfusion
      · rw [hold q hqp]
        exact hq.resolve_right (hslot ▸ hqp)
  · have hc := count_update s (({ s with tombstones := tombstones } : Shard κ).emplace p key)
      .occupied ⟨some key, .occupied⟩ hp rfl rfl
    rw [if_neg hfree, if_pos rfl, Nat.add_zero, ← hw.used] at hc
    exact hc.symm
  · have hc := count_update s (({ s with tombstones := tombstones } : Shard κ).emplace p key)
      .deleted ⟨some key, .occupied⟩ hp rfl rfl
    have hne : ¬ (SlotState.occupied = SlotState.deleted) := SlotState.noConfusion
    rw [if_neg hne] at hc
    have htombs := hw.tombstones
    change tombstones = _
    omega
  · rintro ⟨q, hq, hk⟩
    by_cases hqp : q = p
    · subst hqp
      rw [hnew] at hk
      exact .inl (Option.some.inj hk).symm
    · rw [hold q hqp] at hk
      exact .inr ⟨q, hq, hk⟩
  · rintro (rfl | ⟨q, hq, hk⟩)
    · exact ⟨p, hp, hnew⟩
    · refine ⟨q, hq, ?_⟩
      rw [hold q]
      · exact hk
      · rintro rfl
        rw [hvalue] at hk
        cases hk

/-- **A key that is in no slot** goes into the first empty one. -/
theorem WellFormed.append (hw : s.WellFormed h) {key : κ} (hcap : s.cap = 2 ^ m)
    (habsent : ∀ p < s.cap, (s.keys p).value ≠ some key) (hroom : s.used + s.tombstones < s.cap) :
    ∃ t, s.append h key = some t ∧ t.WellFormed h ∧ t.cap = s.cap ∧ t.used = s.used + 1 ∧
      t.tombstones = s.tombstones ∧ ∀ k, t.Has k ↔ k = key ∨ s.Has k := by
  have hex := exists_empty (by rw [← hw.used, ← hw.tombstones]; exact hroom)
  obtain ⟨j, hj, hfind, hempty, hover⟩ := findEmpty_spec (x := h.home key) (i := 0) hcap hex
    (Nat.zero_add _) fun j hj => absurd hj (Nat.not_lt_zero j)
  have hput := hw.emplace s.tombstones habsent hj hover (by rw [hempty]; decide)
    (by rw [hempty, if_neg (by decide), Nat.add_zero])
  refine ⟨s.emplace (Probing.slot s.cap (h.home key) j) key, ?_, hput.1, rfl, rfl, rfl, hput.2⟩
  rw [Shard.append, start_slot hcap, hfind]
  rfl

theorem WellFormed.bury (hw : s.WellFormed h) {key : κ} {p : Nat} (hp : p < s.cap)
    (hk : (s.keys p).value = some key) :
    (s.bury p).WellFormed h ∧ ∀ k, (s.bury p).Has k ↔ k ≠ key ∧ s.Has k := by
  have hocc : (s.keys p).state = .occupied := by
    by_contra hne
    rw [value_of_not_occupied hne] at hk
    cases hk
  have hnew : (s.bury p).keys p = ⟨none, .deleted⟩ := update_self ..
  have hold : ∀ q, q ≠ p → (s.bury p).keys q = s.keys q :=
    fun q hq => update_of_ne hq _ _
  have hvalue : ∀ q < s.cap, ∀ k, ((s.bury p).keys q).value = some k ↔
      q ≠ p ∧ (s.keys q).value = some k := by
    intro q _ k
    by_cases hqp : q = p
    · subst hqp
      rw [hnew, iff_false_right fun hc => hc.1 rfl]
      intro hc
      cases hc
    · rw [hold q hqp]
      exact ⟨fun hc => ⟨hqp, hc⟩, fun hc => hc.2⟩
  refine ⟨⟨hw.cap, fun q hq hq' => ?_, ?_, ?_, ?_⟩, fun k => ⟨?_, ?_⟩⟩
  · by_cases hqp : q = p
    · subst hqp
      rw [hnew] at hq'
      cases hq'
    · rw [hold q hqp] at hq' ⊢
      exact hw.key q hq hq'
  · refine hw.kept.remove (fun q hq k hk' => ((hvalue q hq k).mp hk').2) fun q hq => ?_
    by_cases hqp : q = p
    · subst hqp
      rw [hnew]
      exact SlotState.noConfusion
    · rw [hold q hqp]
      exact hq
  · have hc := count_update s (s.bury p) .occupied ⟨none, .deleted⟩ hp rfl rfl
    have hne : ¬ (SlotState.deleted = SlotState.occupied) := SlotState.noConfusion
    rw [if_pos hocc, if_neg hne, ← hw.used] at hc
    change s.used - 1 = _
    omega
  · have hc := count_update s (s.bury p) .deleted ⟨none, .deleted⟩ hp rfl rfl
    have hne : ¬ (s.keys p).state = .deleted := by
      rw [hocc]
      exact SlotState.noConfusion
    rw [if_neg hne, if_pos rfl, ← hw.tombstones] at hc
    exact hc.symm
  · rintro ⟨q, hq, hk'⟩
    obtain ⟨hqp, hk''⟩ := (hvalue q hq k).mp hk'
    refine ⟨?_, q, hq, hk''⟩
    rintro rfl
    exact hqp (hw.kept.unique q hq p hp k hk'' hk)
  · rintro ⟨hne, q, hq, hk'⟩
    refine ⟨q, hq, (hvalue q hq k).mpr ⟨?_, hk'⟩⟩
    rintro rfl
    rw [hk] at hk'
    exact hne (Option.some.inj hk').symm

/-! ## Rehashing -/

theorem wellFormed_fresh {cap : Nat} (hcap : cap = 0 ∨ ∃ m, 3 ≤ m ∧ cap = 2 ^ m) :
    (⟨fun _ => .init, cap, 0, 0⟩ : Shard κ).WellFormed h where
  cap := hcap
  key p _ hocc := by cases hocc
  kept := Probing.kept_empty _ _ _
  used := (List.countP_eq_zero.mpr fun p _ => by simp [Slot.init]).symm
  tombstones := (List.countP_eq_zero.mpr fun p _ => by simp [Slot.init]).symm

theorem count_le (s : Shard κ) (state : SlotState) : s.count state ≤ s.cap := by
  have := List.countP_le_length (p := fun p => decide ((s.keys p).state = state))
    (l := List.range s.cap)
  rwa [List.length_range] at this

theorem count_pos {state : SlotState} {p : Nat} (hp : p < s.cap) (hst : (s.keys p).state = state) :
    0 < s.count state :=
  List.countP_pos_iff.mpr ⟨p, List.mem_range.mpr hp, decide_eq_true hst⟩

/-- **The loop of `RehashShard`** has moved the keys of the first `n` slots. -/
theorem WellFormed.rehashSlots (hw : s.WellFormed h) {cap : Nat} (hm : 3 ≤ m) (hcap : cap = 2 ^ m)
    (hroom : s.cap ≤ cap) (hn : n ≤ s.cap) :
    ∃ t, (List.range n).foldlM (fun t idx => t.rehashSlot h (s.keys idx))
        (⟨fun _ => .init, cap, 0, 0⟩ : Shard κ) = some t ∧
      t.WellFormed h ∧ t.cap = cap ∧ t.tombstones = 0 ∧
      t.used = (List.range n).countP (fun p => (s.keys p).state = .occupied) ∧
      ∀ k, t.Has k ↔ ∃ p < n, (s.keys p).value = some k := by
  induction n with
  | zero =>
    refine ⟨_, rfl, wellFormed_fresh (.inr ⟨m, hm, hcap⟩), rfl, rfl, rfl, fun k => ⟨?_, ?_⟩⟩
    · rintro ⟨p, -, hk⟩
      cases hk
    · rintro ⟨p, hp, -⟩
      exact absurd hp (Nat.not_lt_zero p)
  | succ n ih =>
    obtain ⟨t, hfold, hwt, htcap, htombs, hused, hhas⟩ := ih (by omega)
    have hstep : (List.range (n + 1)).foldlM (fun t idx => t.rehashSlot h (s.keys idx))
        (⟨fun _ => .init, cap, 0, 0⟩ : Shard κ) = t.rehashSlot h (s.keys n) := by
      rw [List.range_succ, List.foldlM_append, hfold]
      simp
    rw [hstep, List.range_succ, List.countP_append, List.countP_singleton]
    by_cases hocc : (s.keys n).state = .occupied
    · obtain ⟨key, hkey⟩ := Option.isSome_iff_exists.mp (hw.key n (by omega) hocc)
      have hvalue : (s.keys n).value = some key := by rw [Slot.value, if_pos hocc, hkey]
      have habsent : ∀ p < t.cap, (t.keys p).value ≠ some key := by
        intro p hp hk
        obtain ⟨q, hq, hkq⟩ := (hhas key).mp ⟨p, hp, hk⟩
        have := hw.kept.unique q (by omega) n (by omega) key hkq hvalue
        omega
      have hle := List.countP_le_length (p := fun p => decide ((s.keys p).state = .occupied))
        (l := List.range n)
      rw [List.length_range] at hle
      obtain ⟨u, happ, hwu, hucap, huused, hutombs, huhas⟩ :=
        hwt.append (htcap.trans hcap) habsent (by omega)
      refine ⟨u, ?_, hwu, hucap.trans htcap, hutombs.trans htombs, ?_, fun k => ?_⟩
      · rw [rehashSlot, if_neg (not_not.mpr hocc), hkey]
        exact happ
      · rw [huused, hused, decide_eq_true hocc, if_pos rfl]
      · rw [huhas, hhas]
        constructor
        · rintro (rfl | ⟨p, hp, hk⟩)
          · exact ⟨n, by omega, hvalue⟩
          · exact ⟨p, by omega, hk⟩
        · rintro ⟨p, hp, hk⟩
          rcases Nat.lt_succ_iff_lt_or_eq.mp hp with hp | rfl
          · exact .inr ⟨p, hp, hk⟩
          · rw [hvalue] at hk
            exact .inl (Option.some.inj hk).symm
    · refine ⟨t, ?_, hwt, htcap, htombs, ?_, fun k => ?_⟩
      · rw [rehashSlot, if_pos hocc]
      · rw [hused, decide_eq_false hocc, if_neg Bool.false_ne_true, Nat.add_zero]
      · rw [hhas]
        constructor
        · rintro ⟨p, hp, hk⟩
          exact ⟨p, by omega, hk⟩
        · rintro ⟨p, hp, hk⟩
          rcases Nat.lt_succ_iff_lt_or_eq.mp hp with hp | rfl
          · exact ⟨p, hp, hk⟩
          · rw [value_of_not_occupied hocc] at hk
            cases hk

/-- **`RehashShard`** keeps the keys, drops the tombstones and at least doubles the slots. -/
theorem WellFormed.rehashShard (hw : s.WellFormed h) :
    ∃ t m, s.rehashShard h = some t ∧ t.WellFormed h ∧ t.cap = 2 ^ m ∧
      t.used + t.tombstones < t.cap ∧ ∀ k, t.Has k ↔ s.Has k := by
  obtain ⟨m, hm, hcap, hroom⟩ : ∃ m, 3 ≤ m ∧ (if s.cap = 0 then 8 else s.cap * 2) = 2 ^ m ∧
      s.cap < (if s.cap = 0 then 8 else s.cap * 2) := by
    rcases hw.cap with h0 | ⟨m, hm, hpow⟩
    · rw [if_pos h0]
      exact ⟨3, Nat.le_refl 3, rfl, by omega⟩
    · have hpos : 0 < 2 ^ m := Nat.two_pow_pos m
      rw [if_neg (by omega), hpow]
      exact ⟨m + 1, by omega, (Nat.pow_succ ..).symm, by omega⟩
  obtain ⟨t, hfold, hwt, htcap, htombs, hused, hhas⟩ :=
    hw.rehashSlots hm hcap (Nat.le_of_lt hroom) (Nat.le_refl s.cap)
  have hle := count_le s .occupied
  refine ⟨t, m, hfold, hwt, htcap.trans hcap, ?_, hhas⟩
  rw [hused, htombs, htcap]
  exact Nat.lt_of_le_of_lt hle hroom

theorem WellFormed.grow (hw : s.WellFormed h) :
    ∃ t m, s.grow h = some t ∧ t.WellFormed h ∧ t.cap = 2 ^ m ∧
      t.used + t.tombstones < t.cap ∧ ∀ k, t.Has k ↔ s.Has k := by
  unfold Shard.grow
  by_cases hload : (s.used + s.tombstones) * 4 ≥ s.cap * 3
  · rw [if_pos hload]
    exact hw.rehashShard
  · rw [if_neg hload]
    rcases hw.cap with h0 | ⟨m, -, hpow⟩
    · omega
    · exact ⟨s, m, rfl, hw, hpow, by omega, fun k => Iff.rfl⟩

/-! ## Looking for a key -/

variable [DecidableEq κ]

theorem holds_iff {slot : Slot κ} {key : κ} : slot.holds key = true ↔ slot.value = some key := by
  unfold Slot.holds Slot.value
  rw [Bool.and_eq_true, beq_iff_eq, beq_iff_eq]
  by_cases hocc : slot.state = .occupied
  · simp [hocc]
  · simp [hocc]

/-- **The loop of `Insert`** finds the key, or comes to the first empty slot, having noted a tombstone
on the way or none. -/
theorem scan_spec (key : κ) (hcap : s.cap = 2 ^ m) (hex : ∃ p < s.cap, (s.keys p).state = .empty)
    (hi : i + fuel = s.cap) (hover : ∀ j < i, (s.keys (Probing.slot s.cap x j)).state ≠ .empty ∧
      (s.keys (Probing.slot s.cap x j)).value ≠ some key)
    (hfirst : firstDeleted = s.cap ∨ ∃ j < i, firstDeleted = Probing.slot s.cap x j ∧
      (s.keys firstDeleted).state = .deleted) :
    (s.scan key (Probing.slot s.cap x 0) fuel (Probing.slot s.cap x i) firstDeleted =
        some .present ∧ s.Has key) ∨
      ∃ j fd, s.scan key (Probing.slot s.cap x 0) fuel (Probing.slot s.cap x i) firstDeleted =
        some (.empty (Probing.slot s.cap x j) fd) ∧ j < s.cap ∧
        (s.keys (Probing.slot s.cap x j)).state = .empty ∧
        (∀ j' < j, (s.keys (Probing.slot s.cap x j')).state ≠ .empty ∧
          (s.keys (Probing.slot s.cap x j')).value ≠ some key) ∧
        (fd = s.cap ∨ ∃ j' < j, fd = Probing.slot s.cap x j' ∧ (s.keys fd).state = .deleted) := by
  obtain ⟨p, hp, hempty⟩ := hex
  obtain ⟨e, he, rfl⟩ := Probing.exists_slot x hp
  have hie : i ≤ e := by
    by_contra hlt
    exact (hover e (by omega)).1 hempty
  induction fuel generalizing i firstDeleted with
  | zero => omega
  | succ fuel ih =>
    unfold scan
    by_cases hkey : (s.keys (Probing.slot s.cap x i)).holds key = true
    · rw [if_pos hkey]
      exact .inl ⟨rfl, _, Probing.slot_lt (by omega) _ _, holds_iff.mp hkey⟩
    · rw [if_neg hkey]
      dsimp only
      by_cases hst : (s.keys (Probing.slot s.cap x i)).state = .empty
      · have hnot : ¬ ((s.keys (Probing.slot s.cap x i)).state = .deleted ∧
            firstDeleted = s.cap) := by
          rw [hst]
          exact fun hc => SlotState.noConfusion hc.1
        rw [if_neg hnot, if_pos hst]
        exact .inr ⟨i, firstDeleted, rfl, by omega, hst, hover, hfirst⟩
      · have hlt : i < e := by
          refine Nat.lt_of_le_of_ne hie ?_
          rintro rfl
          exact hst hempty
        rw [if_neg hst, probe_slot hcap,
          if_neg (Probing.slot_ne_start (by omega) x (Nat.succ_pos i) (by omega))]
        refine ih (by omega) (fun j hj => ?_) ?_ hlt
        · rcases Nat.lt_succ_iff_lt_or_eq.mp hj with hj | rfl
          · exact hover j hj
          · exact ⟨hst, fun hv => hkey (holds_iff.mpr hv)⟩
        · by_cases hdel : (s.keys (Probing.slot s.cap x i)).state = .deleted ∧ firstDeleted = s.cap
          · rw [if_pos hdel]
            exact .inr ⟨i, Nat.lt_succ_self i, rfl, hdel.1⟩
          · rw [if_neg hdel]
            exact hfirst.imp id fun ⟨j, hj, hrest⟩ => ⟨j, by omega, hrest⟩

/-- **The loop of `Contains` and `Remove`** finds the slot of the key if there is one. -/
theorem WellFormed.search (hw : s.WellFormed h) (key : κ) (hcap : s.cap = 2 ^ m) (hpos : 0 < fuel)
    (hi : i + fuel = s.cap)
    (hover : ∀ j < i, (s.keys (Probing.slot s.cap (h.home key) j)).value ≠ some key) :
    ∃ found, s.search key (Probing.slot s.cap (h.home key) 0) fuel
        (Probing.slot s.cap (h.home key) i) = some found ∧
      ((∃ p, found = some p ∧ p < s.cap ∧ (s.keys p).value = some key) ∨
        found = none ∧ ¬ s.Has key) := by
  induction fuel generalizing i with
  | zero => omega
  | succ fuel ih =>
    unfold Shard.search
    by_cases hst : (s.keys (Probing.slot s.cap (h.home key) i)).state = .empty
    · rw [if_pos hst]
      refine ⟨none, rfl, .inr ⟨rfl, fun ⟨p, hp, hk⟩ => ?_⟩⟩
      exact hw.kept.absent hover (.inr (not_not.mpr hst)) p hp hk
    · rw [if_neg hst]
      by_cases hkey : (s.keys (Probing.slot s.cap (h.home key) i)).holds key = true
      · rw [if_pos hkey]
        exact ⟨_, rfl, .inl ⟨_, rfl, Probing.slot_lt (by omega) _ _, holds_iff.mp hkey⟩⟩
      · have hnext : ∀ j < i + 1,
            (s.keys (Probing.slot s.cap (h.home key) j)).value ≠ some key := by
          intro j hj
          rcases Nat.lt_succ_iff_lt_or_eq.mp hj with hj | rfl
          · exact hover j hj
          · exact fun hv => hkey (holds_iff.mpr hv)
        rw [if_neg hkey, probe_slot hcap]
        by_cases hlast : i + 1 = s.cap
        · rw [hlast, Probing.slot_full, if_pos rfl]
          refine ⟨none, rfl, .inr ⟨rfl, fun ⟨p, hp, hk⟩ => ?_⟩⟩
          exact hw.kept.absent hnext (.inl hlast) p hp hk
        · rw [if_neg (Probing.slot_ne_start (by omega) _ (Nat.succ_pos i) (by omega))]
          exact ih (by omega) (by omega) hnext

/-! ## The operations on a shard -/

/-- **`Insert`** ends, and the key is in the shard with those that were there. -/
theorem WellFormed.insert (hw : s.WellFormed h) (key : κ) :
    ∃ t n, s.insert h key = some (t, n) ∧ t.WellFormed h ∧
      (∀ k, t.Has k ↔ k = key ∨ s.Has k) ∧ (s.Has key → n = 0) ∧ (¬ s.Has key → n = 1) := by
  obtain ⟨t, m, hgrow, hwt, hcap, hroom, hhas⟩ := hw.grow
  have hex := exists_empty (s := t) (by rw [← hwt.used, ← hwt.tombstones]; exact hroom)
  have hscan := scan_spec (x := h.home key) (i := 0) key hcap hex (Nat.zero_add _)
    (fun j hj => absurd hj (Nat.not_lt_zero j)) (.inl rfl)
  have hins : s.insert h key = (t.scan key (Probing.slot t.cap (h.home key) 0) t.cap
      (Probing.slot t.cap (h.home key) 0) t.cap).bind fun found => t.finish h key found := by
    rw [Shard.insert, hgrow, Option.bind_some, if_neg (by omega), Option.bind_some,
      start_slot hcap]
  rcases hscan with ⟨hpresent, hkey⟩ | ⟨j, fd, hend, hj, hempty, hover, hfd⟩
  · rw [hins, hpresent]
    refine ⟨t, 0, rfl, hwt, fun k => ?_, fun _ => rfl, fun hno => absurd ((hhas key).mp hkey) hno⟩
    rw [hhas]
    refine ⟨.inr, ?_⟩
    rintro (rfl | hk)
    · exact (hhas k).mp hkey
    · exact hk
  · have habsent : ∀ p < t.cap, (t.keys p).value ≠ some key :=
      hwt.kept.absent (fun j' hj' => (hover j' hj').2) (.inr (not_not.mpr hempty))
    have hno : ¬ s.Has key := by
      rw [← hhas]
      rintro ⟨p, hp, hk⟩
      exact habsent p hp hk
    -- the slot is a tombstone on the way, or the empty slot at its end
    obtain ⟨i, hi, htarget, hfree⟩ : ∃ i ≤ j, (if fd ≠ t.cap then fd else
        Probing.slot t.cap (h.home key) j) = Probing.slot t.cap (h.home key) i ∧
        (t.keys (Probing.slot t.cap (h.home key) i)).state ≠ .occupied := by
      rcases hfd with hfd | ⟨j', hj', hfd, hdel⟩
      · refine ⟨j, Nat.le_refl j, if_neg (not_not.mpr hfd), ?_⟩
        rw [hempty]
        exact SlotState.noConfusion
      · have hlt : fd < t.cap := by
          rw [hfd]
          exact Probing.slot_lt (by omega) _ _
        refine ⟨j', by omega, (if_pos (Nat.ne_of_lt hlt)).trans hfd, ?_⟩
        rw [← hfd, hdel]
        exact SlotState.noConfusion
    have hput := hwt.emplace (if (t.keys (Probing.slot t.cap (h.home key) i)).state = .deleted
      then t.tombstones - 1 else t.tombstones) habsent (by omega)
      (fun j' hj' => (hover j' (by omega)).1) hfree (by
        split_ifs with hdel
        · have := count_pos (Probing.slot_lt (by omega) _ _) hdel
          rw [← hwt.tombstones] at this
          omega
        · rfl)
    refine ⟨_, 1, ?_, hput.1, fun k => ?_, fun hk => absurd hk hno, fun _ => rfl⟩
    · rw [hins, hend, Option.bind_some, finish, htarget]
    · rw [hput.2, hhas]

/-- **`Contains`** ends and tells whether the key is in the shard. -/
theorem WellFormed.contains (hw : s.WellFormed h) (key : κ) :
    ∃ b, s.contains h key = some b ∧ (b = true ↔ s.Has key) := by
  unfold Shard.contains
  rcases hw.cap with h0 | ⟨m, -, hcap⟩
  · rw [if_pos h0]
    refine ⟨false, rfl, Bool.false_ne_true.elim, ?_⟩
    rintro ⟨p, hp, -⟩
    omega
  · have hpos : 0 < 2 ^ m := Nat.two_pow_pos m
    obtain ⟨found, hsearch, hfound⟩ := hw.search (i := 0) key hcap (by omega)
      (Nat.zero_add _) fun j hj => absurd hj (Nat.not_lt_zero j)
    rw [if_neg (by omega), start_slot hcap, hsearch]
    refine ⟨found.isSome, rfl, ?_⟩
    rcases hfound with ⟨p, rfl, hp, hk⟩ | ⟨rfl, hno⟩
    · exact ⟨fun _ => ⟨p, hp, hk⟩, fun _ => rfl⟩
    · exact ⟨Bool.false_ne_true.elim, fun hk => absurd hk hno⟩

/-- **`Remove`** ends, and the key is not in the shard any more. -/
theorem WellFormed.remove (hw : s.WellFormed h) (key : κ) :
    ∃ t n, s.remove h key = some (t, n) ∧ t.WellFormed h ∧
      (∀ k, t.Has k ↔ k ≠ key ∧ s.Has k) ∧ (s.Has key → n = 1) ∧ (¬ s.Has key → n = 0) := by
  have hsame : ¬ s.Has key → ∀ k, s.Has k ↔ k ≠ key ∧ s.Has k := by
    intro hno k
    refine ⟨fun hk => ⟨?_, hk⟩, And.right⟩
    rintro rfl
    exact hno hk
  unfold Shard.remove
  rcases hw.cap with h0 | ⟨m, -, hcap⟩
  · have hno : ¬ s.Has key := by
      rintro ⟨p, hp, -⟩
      omega
    rw [if_pos h0]
    exact ⟨s, 0, rfl, hw, hsame hno, fun hk => absurd hk hno, fun _ => rfl⟩
  · have hpos : 0 < 2 ^ m := Nat.two_pow_pos m
    obtain ⟨found, hsearch, hfound⟩ := hw.search (i := 0) key hcap (by omega)
      (Nat.zero_add _) fun j hj => absurd hj (Nat.not_lt_zero j)
    rw [if_neg (by omega), start_slot hcap, hsearch]
    rcases hfound with ⟨p, rfl, hp, hk⟩ | ⟨rfl, hno⟩
    · obtain ⟨hwb, hhas⟩ := hw.bury hp hk
      exact ⟨s.bury p, 1, rfl, hwb, hhas, fun _ => rfl, fun hno => absurd ⟨p, hp, hk⟩ hno⟩
    · exact ⟨s, 0, rfl, hw, hsame hno, fun hk => absurd hk hno, fun _ => rfl⟩

end Shard

/-! ## The set -/

namespace HashSet

/-- The set stands for `keys`. -/
structure Refines (h : HashParams κ) (s : HashSet κ) (keys : Finset κ) : Prop where
  wellFormed : s.WellFormed h
  has : ∀ k, (s.shards (h.shardIndex k)).Has k ↔ k ∈ keys
  size : s.size = keys.card

theorem refines_init (h : HashParams κ) : Refines h HashSet.init ∅ where
  wellFormed := {
    shard := fun _ => Shard.wellFormed_fresh (.inl rfl)
    own := fun i p hp => absurd hp (Nat.not_lt_zero p) }
  has k := by
    refine ⟨?_, fun hk => absurd hk (Finset.notMem_empty k)⟩
    rintro ⟨p, hp, -⟩
    exact absurd hp (Nat.not_lt_zero p)
  size := rfl

theorem Refines.update {s : HashSet κ} {keys keys' : Finset κ} (hr : Refines h s keys) {i n : Nat}
    {t : Shard κ} (hwt : t.WellFormed h) (hown : ∀ k, t.Has k → h.shardIndex k = i)
    (hhas : ∀ k, h.shardIndex k = i → (t.Has k ↔ k ∈ keys'))
    (hother : ∀ k, h.shardIndex k ≠ i → (k ∈ keys' ↔ k ∈ keys)) (hn : n = keys'.card) :
    Refines h { shards := update s.shards i t, size := n } keys' where
  wellFormed := {
    shard := fun j => by
      change (Function.update s.shards i t j).WellFormed h
      by_cases hj : j = i
      · rw [hj, update_self]
        exact hwt
      · rw [update_of_ne hj]
        exact hr.wellFormed.shard j
    own := fun j p hp k hk => by
      change p < (Function.update s.shards i t j).cap at hp
      change ((Function.update s.shards i t j).keys p).value = some k at hk
      by_cases hj : j = i
      · rw [hj, update_self] at hp hk
        rw [hj]
        exact hown k ⟨p, hp, hk⟩
      · rw [update_of_ne hj] at hp hk
        exact hr.wellFormed.own j p hp k hk }
  has k := by
    change (Function.update s.shards i t (h.shardIndex k)).Has k ↔ _
    by_cases hk : h.shardIndex k = i
    · rw [hk, update_self]
      exact hhas k hk
    · rw [update_of_ne hk, hother k hk]
      exact hr.has k
  size := hn

variable [DecidableEq κ]

/-- **One operation** ends, and does to the set what it does to the keys. -/
theorem Refines.step {s : HashSet κ} {keys : Finset κ} (hr : Refines h s keys) (op : SetOp κ) :
    ∃ t, s.step h op = some t ∧ Refines h t (op.apply keys) := by
  cases op with
  | insert key =>
    obtain ⟨t, n, hins, hwt, hhas, hyes, hno⟩ :=
      (hr.wellFormed.shard (h.shardIndex key)).insert key
    refine ⟨_, by rw [HashSet.step, insert, hins]; rfl, hr.update hwt ?_ ?_ ?_ ?_⟩
    · intro k hk
      rcases (hhas k).mp hk with rfl | ⟨p, hp, hv⟩
      · rfl
      · exact hr.wellFormed.own _ p hp k hv
    · intro k hk
      rw [hhas, ← hk, hr.has k, SetOp.apply, Finset.mem_insert]
    · intro k hk
      rw [SetOp.apply, Finset.mem_insert]
      refine ⟨fun hor => hor.resolve_left ?_, .inr⟩
      rintro rfl
      exact hk rfl
    · rw [SetOp.apply, hr.size]
      by_cases hkey : key ∈ keys
      · rw [Finset.insert_eq_of_mem hkey, hyes ((hr.has key).mpr hkey), Nat.add_zero]
      · rw [Finset.card_insert_of_notMem hkey, hno fun hk => hkey ((hr.has key).mp hk)]
  | remove key =>
    obtain ⟨t, n, hrem, hwt, hhas, hyes, hno⟩ :=
      (hr.wellFormed.shard (h.shardIndex key)).remove key
    refine ⟨_, by rw [HashSet.step, remove, hrem]; rfl, hr.update hwt ?_ ?_ ?_ ?_⟩
    · intro k hk
      obtain ⟨-, p, hp, hv⟩ := (hhas k).mp hk
      exact hr.wellFormed.own _ p hp k hv
    · intro k hk
      rw [hhas, ← hk, hr.has k, SetOp.apply, Finset.mem_erase]
    · intro k hk
      rw [SetOp.apply, Finset.mem_erase]
      refine ⟨And.right, fun hmem => ⟨?_, hmem⟩⟩
      rintro rfl
      exact hk rfl
    · rw [SetOp.apply, hr.size]
      by_cases hkey : key ∈ keys
      · rw [Finset.card_erase_of_mem hkey, hyes ((hr.has key).mpr hkey)]
      · rw [Finset.erase_eq_of_notMem hkey, hno fun hk => hkey ((hr.has key).mp hk), Nat.sub_zero]
  | contains key =>
    obtain ⟨b, hcont, -⟩ := (hr.wellFormed.shard (h.shardIndex key)).contains key
    exact ⟨s, by rw [HashSet.step, contains, hcont]; rfl, hr⟩

theorem Refines.contains {s : HashSet κ} {keys : Finset κ} (hr : Refines h s keys) (key : κ) :
    s.contains h key = some (decide (key ∈ keys)) := by
  obtain ⟨b, hcont, hb⟩ := (hr.wellFormed.shard (h.shardIndex key)).contains key
  rw [hr.has] at hb
  rw [HashSet.contains, hcont]
  by_cases hkey : key ∈ keys
  · rw [decide_eq_true hkey, hb.mpr hkey]
  · rw [decide_eq_false hkey, Bool.eq_false_iff.mpr fun hc => hkey (hb.mp hc)]

/-- **The set is a finite set of keys**: every operation of every sequence ends, and after it the
shards are in order, `size_` is the number of keys, and `Contains` tells which are in the set. -/
theorem hashSet_refines (h : HashParams κ) (ops : List (SetOp κ)) :
    ∃ s, run h ops = some s ∧ s.WellFormed h ∧ s.size = (members ops).card ∧
      ∀ key, s.contains h key = some (decide (key ∈ members ops)) := by
  have hrun : ∃ s, run h ops = some s ∧ Refines h s (members ops) := by
    induction ops using List.reverseRecOn with
    | nil => exact ⟨_, rfl, refines_init h⟩
    | append_singleton ops op ih =>
      obtain ⟨s, hs, hr⟩ := ih
      obtain ⟨t, ht, hrt⟩ := hr.step op
      unfold run at hs ⊢
      refine ⟨t, ?_, ?_⟩
      · rw [List.foldlM_append, hs]
        simpa using ht
      · rw [members, List.foldl_append]
        exact hrt
  obtain ⟨s, hs, hr⟩ := hrun
  exact ⟨s, hs, hr.wellFormed, hr.size, hr.contains⟩

end HashSet

end UnifiedCache.Infra
