import UnifiedCache.Lib.RoundRobin
import UnifiedCache.Trans.SmCopy
import Mathlib.Algebra.Order.BigOperators.Group.Finset
import Mathlib.Data.Fintype.Card
import Mathlib.Data.Fintype.Prod

/-!
# Proofs: copying with the GPU

A place is a byte of the range that the kernel goes over. It belongs to a unit, and the unit to a thread.
The places of a thread are loaded and stored in halves of units, in order, whatever the other threads do.
So all places of whole units are copied from and to the addresses of the kernel, and this is what the
plain stream does if the units fit the buffers.
-/

open Function Lib

namespace UnifiedCache.Trans.CudaSmStream

variable {buffers : Buffers} {size number : Nat} {mem : Memory} {s s' : State} {i o : Nat}

theorem unitSize_eq : unitSize = 32 := rfl

theorem vectorSize_eq : vectorSize = 16 := rfl

theorem threadNumber_pos : 0 < threadNumber := by decide

/-! ## Places -/

/-- The address that a place is read from. -/
def readAt (buffers : Buffers) (size o : Nat) : Nat := hostOf size (o / 32 * 32) buffers + o % 32

/-- The address that a place is written to. -/
def writtenAt (buffers : Buffers) (size o : Nat) : Nat := deviceOf size (o / 32 * 32) buffers + o % 32

/-- Up to where the loads of a thread have come. -/
def Thread.loadedTo (t : Thread) : Nat :=
  match t.next with
  | .loadLo => t.offset
  | .loadHi => t.offset + 16
  | .storeLo => t.offset + 32
  | .storeHi => t.offset + 32

/-- Up to where its stores have come. -/
def Thread.storedTo (t : Thread) : Nat :=
  match t.next with
  | .loadLo => t.offset
  | .loadHi => t.offset
  | .storeLo => t.offset
  | .storeHi => t.offset + 16

/-- A byte of its registers. -/
def Thread.reg (t : Thread) (j : Nat) : UInt8 := if j < 16 then t.lo.getD j 0 else t.hi.getD (j - 16) 0

/-- The thread of a place. -/
def threadOf (s : State) (o : Nat) : Thread := s.threads (o / 32 % threadNumber)

/-- The place has been loaded. -/
def Loaded (s : State) (o : Nat) : Prop := o < (threadOf s o).loadedTo

/-- The place has been stored. -/
def Stored (s : State) (o : Nat) : Prop := o < (threadOf s o).storedTo

/-- The thread of the place is at its unit. -/
def Current (s : State) (o : Nat) : Prop := (threadOf s o).offset = o / 32 * 32

/-- The register that the place goes through. -/
def regAt (s : State) (o : Nat) : UInt8 := (threadOf s o).reg (o % 32)

/-- The place is in a half of a unit. -/
def InHalf (unit half o : Nat) : Prop := o / 32 = unit ∧ half ≤ o % 32 ∧ o % 32 < half + 16

/-- The threads are at their units. -/
def AtUnits (s : State) : Prop :=
  ∀ i < threadNumber, ∃ pass, (s.threads i).offset = (i + threadNumber * pass) * 32

theorem unit_eq {pass : Nat} (hi : i < threadNumber) (ho : o / 32 % threadNumber = i)
    (hle : (i + threadNumber * pass) * 32 ≤ o)
    (hlt : o < (i + threadNumber * pass) * 32 + threadNumber * 32) :
    o / 32 = i + threadNumber * pass := by
  have hmod : (i + threadNumber * pass) % threadNumber = o / 32 % threadNumber := by
    rw [Nat.add_mul_mod_self_left, Nat.mod_eq_of_lt hi, ho]
  have hunit : i + threadNumber * pass ≤ o / 32 := by omega
  refine Nat.le_antisymm ?_ hunit
  exact RoundRobin.first_le (i + threadNumber * pass) (by omega) (Nat.le_refl _) hmod

/-! ## One instruction -/

/-- What one instruction does: it moves half a unit. -/
inductive Effect (buffers : Buffers) (size number : Nat) (s s' : State) : Prop where
  | load (unit half : Nat) (hunit : unit < size * number / 32) (hhalf : half = 0 ∨ half = 16)
      (haligned : (hostOf size (unit * 32) buffers + half) % 16 = 0)
      (hmem : s'.mem = s.mem)
      (haccesses : s'.accesses =
        ⟨unit % threadNumber, false, hostOf size (unit * 32) buffers + half⟩ :: s.accesses)
      (hloaded : ∀ o, Loaded s' o ↔ Loaded s o ∨ InHalf unit half o)
      (hstored : ∀ o, Stored s' o ↔ Stored s o)
      (hregs : ∀ o, Current s' o → Loaded s' o →
        InHalf unit half o ∧ regAt s' o = s.mem (readAt buffers size o) ∨
          Current s o ∧ Loaded s o ∧ regAt s' o = regAt s o)
  | store (unit half : Nat) (hunit : unit < size * number / 32) (hhalf : half = 0 ∨ half = 16)
      (haligned : (deviceOf size (unit * 32) buffers + half) % 16 = 0)
      (hmem : ∀ a, (∃ o, InHalf unit half o ∧ writtenAt buffers size o = a ∧ Current s o ∧ Loaded s o ∧
          s'.mem a = regAt s o) ∨
        (∀ o, InHalf unit half o → writtenAt buffers size o ≠ a) ∧ s'.mem a = s.mem a)
      (haccesses : s'.accesses =
        ⟨unit % threadNumber, true, deviceOf size (unit * 32) buffers + half⟩ :: s.accesses)
      (hloaded : ∀ o, Loaded s' o ↔ Loaded s o)
      (hstored : ∀ o, Stored s' o ↔ Stored s o ∨ InHalf unit half o)
      (hregs : ∀ o, Current s' o → Loaded s' o → Current s o ∧ Loaded s o ∧ regAt s' o = regAt s o)

variable {t : Thread} {l : List Access}

theorem threadOf_update {m : Memory} :
    threadOf ⟨m, update s.threads i t, l⟩ o =
      if o / 32 % threadNumber = i then t else threadOf s o := by
  unfold threadOf
  by_cases h : o / 32 % threadNumber = i
  · rw [if_pos h, h]
    exact update_self _ _ _
  · rw [if_neg h]
    exact update_of_ne h _ _

theorem InHalf.thread {pass half : Nat} (hi : i < threadNumber)
    (h : InHalf (i + threadNumber * pass) half o) : o / 32 % threadNumber = i := by
  rw [h.1, Nat.add_mul_mod_self_left, Nat.mod_eq_of_lt hi]

theorem progress_iff {f : Thread → Nat} {P : Nat → Prop} {m : Memory}
    (hP : ∀ o, P o → o / 32 % threadNumber = i)
    (ht : ∀ o, o / 32 % threadNumber = i → (o < f t ↔ o < f (s.threads i) ∨ P o)) (o : Nat) :
    o < f (threadOf ⟨m, update s.threads i t, l⟩ o) ↔ o < f (threadOf s o) ∨ P o := by
  rw [threadOf_update]
  by_cases h : o / 32 % threadNumber = i
  · have hthread : threadOf s o = s.threads i := congrArg s.threads h
    rw [if_pos h, hthread]
    exact ht o h
  · rw [if_neg h]
    constructor
    · exact Or.inl
    · rintro (hlt | hp)
      · exact hlt
      · exact absurd (hP o hp) h

theorem unchanged_iff {f : Thread → Nat} {m : Memory}
    (ht : ∀ o, o / 32 % threadNumber = i → (o < f t ↔ o < f (s.threads i))) (o : Nat) :
    o < f (threadOf ⟨m, update s.threads i t, l⟩ o) ↔ o < f (threadOf s o) := by
  have hsame := progress_iff (s := s) (f := f) (P := fun _ => False) (m := m) (l := l)
    (fun _ => False.elim) (fun o ho => (ht o ho).trans (or_iff_left not_false).symm) o
  exact hsame.trans (or_iff_left not_false)

theorem regs_of_ne {m : Memory} (h : o / 32 % threadNumber ≠ i)
    (hcurrent : Current ⟨m, update s.threads i t, l⟩ o)
    (hloaded : Loaded ⟨m, update s.threads i t, l⟩ o) :
    Current s o ∧ Loaded s o ∧ regAt ⟨m, update s.threads i t, l⟩ o = regAt s o := by
  unfold Current at hcurrent
  unfold Loaded at hloaded
  unfold regAt
  rw [threadOf_update, if_neg h] at hcurrent hloaded ⊢
  exact ⟨hcurrent, hloaded, rfl⟩

theorem store_mem {unit half a : Nat} {vector : List UInt8} (hhalf : half = 0 ∨ half = 16)
    (hs : ∀ o, InHalf unit half o →
      Current s o ∧ Loaded s o ∧ vector.getD (o % 32 - half) 0 = regAt s o) :
    (∃ o, InHalf unit half o ∧ writtenAt buffers size o = a ∧ Current s o ∧ Loaded s o ∧
        (if deviceOf size (unit * 32) buffers + half ≤ a ∧
            a < deviceOf size (unit * 32) buffers + half + vectorSize then
          vector.getD (a - (deviceOf size (unit * 32) buffers + half)) 0 else s.mem a) = regAt s o) ∨
      (∀ o, InHalf unit half o → writtenAt buffers size o ≠ a) ∧
        (if deviceOf size (unit * 32) buffers + half ≤ a ∧
            a < deviceOf size (unit * 32) buffers + half + vectorSize then
          vector.getD (a - (deviceOf size (unit * 32) buffers + half)) 0 else s.mem a) = s.mem a := by
  rw [vectorSize_eq]
  by_cases ha : deviceOf size (unit * 32) buffers + half ≤ a ∧
      a < deviceOf size (unit * 32) buffers + half + 16
  · refine Or.inl ⟨unit * 32 + (a - deviceOf size (unit * 32) buffers), ?_⟩
    have hdiv : (unit * 32 + (a - deviceOf size (unit * 32) buffers)) / 32 = unit := by omega
    have hmod : (unit * 32 + (a - deviceOf size (unit * 32) buffers)) % 32 =
        a - deviceOf size (unit * 32) buffers := by omega
    have hin : InHalf unit half (unit * 32 + (a - deviceOf size (unit * 32) buffers)) := by
      refine ⟨hdiv, ?_, ?_⟩
      · rw [hmod]
        omega
      · rw [hmod]
        omega
    obtain ⟨hcurrent, hloaded, hvalue⟩ := hs _ hin
    have hplace : a - (deviceOf size (unit * 32) buffers + half) =
        a - deviceOf size (unit * 32) buffers - half := by omega
    refine ⟨hin, ?_, hcurrent, hloaded, ?_⟩
    · unfold writtenAt
      rw [hdiv, hmod]
      omega
    · rw [if_pos ha, ← hvalue, hmod, hplace]
  · refine Or.inr ⟨fun o ho heq => ha ?_, if_neg ha⟩
    unfold writtenAt at heq
    rw [ho.1] at heq
    obtain ⟨_, hle, hlt⟩ := ho
    omega

theorem getD_loaded (s : State) (address : Nat) {j : Nat} (hj : j < 16) :
    ((List.range vectorSize).map fun j => s.mem (address + j)).getD j 0 = s.mem (address + j) := by
  rw [List.getD_eq_getElem?_getD, List.getElem?_map, List.getElem?_range (by rw [vectorSize_eq]; exact hj)]
  rfl

theorem load_eq_some {address : Nat} {vector : List UInt8} {accesses : List Access}
    (h : load s i address = some (vector, accesses)) : address % 16 = 0 ∧
      vector = ((List.range vectorSize).map fun j => s.mem (address + j)) ∧
      accesses = ⟨i, false, address⟩ :: s.accesses := by
  unfold load at h
  rw [Option.ite_none_right_eq_some] at h
  obtain ⟨haligned, h⟩ := h
  obtain ⟨rfl, rfl⟩ := Prod.mk.inj (Option.some.inj h)
  exact ⟨haligned, rfl, rfl⟩

theorem store_eq_some {address : Nat} {vector : List UInt8} {m : Memory} {accesses : List Access}
    (h : store s i address vector = some (m, accesses)) : address % 16 = 0 ∧
      m = (fun a => if address ≤ a ∧ a < address + vectorSize then vector.getD (a - address) 0
        else s.mem a) ∧
      accesses = ⟨i, true, address⟩ :: s.accesses := by
  unfold store at h
  rw [Option.ite_none_right_eq_some] at h
  obtain ⟨haligned, h⟩ := h
  obtain ⟨rfl, rfl⟩ := Prod.mk.inj (Option.some.inj h)
  exact ⟨haligned, rfl, rfl⟩

theorem AtUnits.update {m : Memory} (hat : AtUnits s)
    (ht : i < threadNumber → ∃ pass, t.offset = (i + threadNumber * pass) * 32) :
    AtUnits ⟨m, update s.threads i t, l⟩ := by
  intro k hk
  by_cases hki : k = i
  · subst hki
    obtain ⟨pass, hpass⟩ := ht hk
    refine ⟨pass, ?_⟩
    show (Function.update s.threads k t k).offset = _
    rw [update_self, hpass]
  · obtain ⟨pass, hpass⟩ := hat k hk
    refine ⟨pass, ?_⟩
    show (Function.update s.threads i t k).offset = _
    rw [update_of_ne hki, hpass]

section Instructions

variable {pass : Nat} {lo hi' : List UInt8} {m : Memory} {accesses : List Access}
  (hi : i < threadNumber) (hoffset : (s.threads i).offset = (i + threadNumber * pass) * 32)
  (hunit : i + threadNumber * pass < size * number / 32)

include hi in
theorem unit_mod : (i + threadNumber * pass) % threadNumber = i := by
  rw [Nat.add_mul_mod_self_left, Nat.mod_eq_of_lt hi]

include hi hoffset hunit

theorem loadLo_effect (hnext : (s.threads i).next = .loadLo)
    (h : load s i (hostOf size (s.threads i).offset buffers) = some (lo, accesses)) :
    Effect buffers size number s ⟨s.mem, update s.threads i
      { s.threads i with next := .loadHi, lo := lo }, accesses⟩ := by
  obtain ⟨haligned, rfl, rfl⟩ := load_eq_some h
  refine .load (i + threadNumber * pass) 0 hunit (Or.inl rfl) ?_ rfl ?_ ?_ ?_ ?_
  · rw [← hoffset]
    exact haligned
  · rw [unit_mod hi, ← hoffset]
    rfl
  · refine progress_iff (fun o => InHalf.thread hi) fun o ho => ?_
    unfold Thread.loadedTo InHalf
    rw [hnext]
    dsimp only
    omega
  · refine unchanged_iff fun o ho => ?_
    unfold Thread.storedTo
    rw [hnext]
  · intro o hcurrent hloaded
    by_cases ho : o / 32 % threadNumber = i
    · unfold Current at hcurrent
      unfold Loaded at hloaded
      rw [threadOf_update, if_pos ho] at hcurrent hloaded
      unfold Thread.loadedTo at hloaded
      dsimp only at hcurrent hloaded
      have hlt : o % 32 < 16 := by omega
      refine Or.inl ⟨⟨by omega, Nat.zero_le _, by omega⟩, ?_⟩
      unfold regAt Thread.reg readAt
      rw [threadOf_update, if_pos ho, if_pos hlt, ← hcurrent]
      exact getD_loaded _ _ hlt
    · exact Or.inr (regs_of_ne ho hcurrent hloaded)

theorem loadHi_effect (hnext : (s.threads i).next = .loadHi)
    (h : load s i (hostOf size (s.threads i).offset buffers + vectorSize) = some (hi', accesses)) :
    Effect buffers size number s ⟨s.mem, update s.threads i
      { s.threads i with next := .storeLo, hi := hi' }, accesses⟩ := by
  obtain ⟨haligned, rfl, rfl⟩ := load_eq_some h
  refine .load (i + threadNumber * pass) 16 hunit (Or.inr rfl) ?_ rfl ?_ ?_ ?_ ?_
  · rw [← hoffset]
    exact haligned
  · rw [unit_mod hi, ← hoffset]
    rfl
  · refine progress_iff (fun o => InHalf.thread hi) fun o ho => ?_
    unfold Thread.loadedTo InHalf
    rw [hnext]
    dsimp only
    omega
  · refine unchanged_iff fun o ho => ?_
    unfold Thread.storedTo
    rw [hnext]
  · intro o hcurrent hloaded
    by_cases ho : o / 32 % threadNumber = i
    · have hthread : threadOf s o = s.threads i := congrArg s.threads ho
      unfold Current at hcurrent
      rw [threadOf_update, if_pos ho] at hcurrent
      dsimp only at hcurrent
      by_cases hlt : o % 32 < 16
      · -- The lower half was loaded before.
        refine Or.inr ⟨?_, ?_, ?_⟩
        · unfold Current
          rw [hthread]
          exact hcurrent
        · unfold Loaded Thread.loadedTo
          rw [hthread, hnext]
          dsimp only
          omega
        · unfold regAt Thread.reg
          rw [threadOf_update, if_pos ho, if_pos hlt, if_pos hlt, hthread]
      · refine Or.inl ⟨⟨by omega, by omega, by omega⟩, ?_⟩
        unfold regAt Thread.reg readAt
        rw [threadOf_update, if_pos ho, if_neg hlt, ← hcurrent]
        have hvalue := getD_loaded s (hostOf size (s.threads i).offset buffers + vectorSize)
          (show o % 32 - 16 < 16 by omega)
        have hplace : hostOf size (s.threads i).offset buffers + vectorSize + (o % 32 - 16) =
            hostOf size (s.threads i).offset buffers + o % 32 := by
          rw [vectorSize_eq]
          omega
        rw [hplace] at hvalue
        exact hvalue
    · exact Or.inr (regs_of_ne ho hcurrent hloaded)

theorem storeLo_effect (hnext : (s.threads i).next = .storeLo)
    (h : store s i (deviceOf size (s.threads i).offset buffers) (s.threads i).lo = some (m, accesses)) :
    Effect buffers size number s ⟨m, update s.threads i
      { s.threads i with next := .storeHi }, accesses⟩ := by
  obtain ⟨haligned, rfl, rfl⟩ := store_eq_some h
  refine .store (i + threadNumber * pass) 0 hunit (Or.inl rfl) ?_ ?_ ?_ ?_ ?_ ?_
  · rw [← hoffset]
    exact haligned
  · intro a
    rw [hoffset]
    refine store_mem (Or.inl rfl) fun o ho => ?_
    have hthread : threadOf s o = s.threads i := congrArg s.threads (InHalf.thread hi ho)
    obtain ⟨hdiv, hle, hlt⟩ := ho
    rw [Nat.zero_add] at hlt
    refine ⟨?_, ?_, ?_⟩
    · unfold Current
      rw [hthread, hoffset, hdiv]
    · unfold Loaded Thread.loadedTo
      rw [hthread, hnext]
      dsimp only
      omega
    · unfold regAt Thread.reg
      rw [hthread, if_pos hlt]
      rfl
  · rw [unit_mod hi, ← hoffset]
    rfl
  · refine unchanged_iff fun o ho => ?_
    unfold Thread.loadedTo
    rw [hnext]
  · refine progress_iff (fun o => InHalf.thread hi) fun o ho => ?_
    unfold Thread.storedTo InHalf
    rw [hnext]
    dsimp only
    omega
  · intro o hcurrent hloaded
    by_cases ho : o / 32 % threadNumber = i
    · have hthread : threadOf s o = s.threads i := congrArg s.threads ho
      unfold Current at hcurrent ⊢
      unfold Loaded Thread.loadedTo at hloaded ⊢
      unfold regAt
      rw [threadOf_update, if_pos ho] at hcurrent hloaded ⊢
      rw [hthread, hnext]
      exact ⟨hcurrent, hloaded, rfl⟩
    · exact regs_of_ne ho hcurrent hloaded

theorem storeHi_effect (hnext : (s.threads i).next = .storeHi)
    (h : store s i (deviceOf size (s.threads i).offset buffers + vectorSize) (s.threads i).hi =
      some (m, accesses)) :
    Effect buffers size number s ⟨m, update s.threads i { s.threads i with
      offset := (s.threads i).offset + threadNumber * unitSize, next := .loadLo }, accesses⟩ := by
  obtain ⟨haligned, rfl, rfl⟩ := store_eq_some h
  have hpos := threadNumber_pos
  refine .store (i + threadNumber * pass) 16 hunit (Or.inr rfl) ?_ ?_ ?_ ?_ ?_ ?_
  · rw [← hoffset]
    exact haligned
  · intro a
    rw [hoffset]
    refine store_mem (Or.inr rfl) fun o ho => ?_
    have hthread : threadOf s o = s.threads i := congrArg s.threads (InHalf.thread hi ho)
    obtain ⟨hdiv, hle, hlt⟩ := ho
    refine ⟨?_, ?_, ?_⟩
    · unfold Current
      rw [hthread, hoffset, hdiv]
    · unfold Loaded Thread.loadedTo
      rw [hthread, hnext]
      dsimp only
      omega
    · unfold regAt Thread.reg
      rw [hthread, if_neg (Nat.not_lt_of_le hle)]
  · rw [unit_mod hi, ← hoffset]
    rfl
  · refine unchanged_iff fun o ho => ?_
    unfold Thread.loadedTo
    rw [hnext]
    dsimp only
    rw [unitSize_eq, hoffset]
    constructor
    · intro hlt
      by_cases hle : (i + threadNumber * pass) * 32 ≤ o
      · have hdiv := unit_eq hi ho hle hlt
        omega
      · omega
    · intro hlt
      omega
  · refine progress_iff (fun o => InHalf.thread hi) fun o ho => ?_
    unfold Thread.storedTo InHalf
    rw [hnext]
    dsimp only
    rw [unitSize_eq, hoffset]
    constructor
    · intro hlt
      by_cases hle : (i + threadNumber * pass) * 32 ≤ o
      · have hdiv := unit_eq hi ho hle hlt
        omega
      · omega
    · rintro (hlt | ⟨hdiv, _, _⟩)
      · omega
      · omega
  · intro o hcurrent hloaded
    by_cases ho : o / 32 % threadNumber = i
    · -- Nothing of the next unit is loaded.
      unfold Current at hcurrent
      unfold Loaded Thread.loadedTo at hloaded
      rw [threadOf_update, if_pos ho] at hcurrent hloaded
      dsimp only at hcurrent hloaded
      omega
    · exact regs_of_ne ho hcurrent hloaded

end Instructions

/-- **Step lemma.** Every instruction moves half a unit, and the threads stay at their units. -/
theorem step_effect (hat : AtUnits s) (h : (machine buffers size number mem).step s i = some s') :
    AtUnits s' ∧ Effect buffers size number s s' := by
  change (if _ then _ else none) = some s' at h
  rw [Option.ite_none_right_eq_some] at h
  obtain ⟨⟨hi, hloop⟩, h⟩ := h
  obtain ⟨pass, hoffset⟩ := hat i hi
  rw [unitSize_eq] at hloop
  have hunit : i + threadNumber * pass < size * number / 32 := by omega
  unfold stepThread at h
  cases hnext : (s.threads i).next with
  | loadLo =>
    simp only [hnext] at h
    obtain ⟨⟨lo, accesses⟩, hload, h⟩ := Option.bind_eq_some_iff.mp h
    obtain rfl := Option.some.inj h
    exact ⟨hat.update fun _ => ⟨pass, hoffset⟩, loadLo_effect hi hoffset hunit hnext hload⟩
  | loadHi =>
    simp only [hnext] at h
    obtain ⟨⟨hi', accesses⟩, hload, h⟩ := Option.bind_eq_some_iff.mp h
    obtain rfl := Option.some.inj h
    exact ⟨hat.update fun _ => ⟨pass, hoffset⟩, loadHi_effect hi hoffset hunit hnext hload⟩
  | storeLo =>
    simp only [hnext] at h
    obtain ⟨⟨m, accesses⟩, hstore, h⟩ := Option.bind_eq_some_iff.mp h
    obtain rfl := Option.some.inj h
    exact ⟨hat.update fun _ => ⟨pass, hoffset⟩, storeLo_effect hi hoffset hunit hnext hstore⟩
  | storeHi =>
    simp only [hnext] at h
    obtain ⟨⟨m, accesses⟩, hstore, h⟩ := Option.bind_eq_some_iff.mp h
    obtain rfl := Option.some.inj h
    refine ⟨hat.update fun _ => ⟨pass + 1, ?_⟩, storeHi_effect hi hoffset hunit hnext hstore⟩
    show (s.threads i).offset + threadNumber * unitSize = _
    rw [hoffset, unitSize_eq, Nat.mul_add, Nat.mul_one, ← Nat.add_assoc, Nat.add_mul _ threadNumber]

/-! ## Runs -/

/-- What holds of what has been moved and accessed, whatever the addresses are. -/
structure Progress (buffers : Buffers) (size number : Nat) (s : State) : Prop where
  atUnits : AtUnits s
  loaded : ∀ o, Loaded s o → o / 32 < size * number / 32
  stored : ∀ o, Stored s o → o / 32 < size * number / 32
  /-- Every access is one of a half. -/
  accesses : ∀ x ∈ s.accesses, ∃ o, o / 32 < size * number / 32 ∧ (o % 32 = 0 ∨ o % 32 = 16) ∧
    x.thread = o / 32 % threadNumber ∧
    x.address = (if x.write then writtenAt buffers size o else readAt buffers size o) ∧
    x.address % 16 = 0
  reads : ∀ o, (o % 32 = 0 ∨ o % 32 = 16) → Loaded s o →
    ⟨o / 32 % threadNumber, false, readAt buffers size o⟩ ∈ s.accesses
  writes : ∀ o, (o % 32 = 0 ∨ o % 32 = 16) → Stored s o →
    ⟨o / 32 % threadNumber, true, writtenAt buffers size o⟩ ∈ s.accesses

theorem not_loaded_start : ¬Loaded (start mem) o := by
  unfold Loaded threadOf Thread.loadedTo start
  dsimp only
  rw [unitSize_eq]
  have hle := Nat.mod_le (o / 32) threadNumber
  omega

theorem not_stored_start : ¬Stored (start mem) o := not_loaded_start

theorem progress_start : Progress buffers size number (start mem) where
  atUnits i _ := ⟨0, by rw [Nat.mul_zero, Nat.add_zero]; rfl⟩
  loaded _ h := absurd h not_loaded_start
  stored _ h := absurd h not_stored_start
  accesses _ h := absurd h List.not_mem_nil
  reads _ _ h := absurd h not_loaded_start
  writes _ _ h := absurd h not_stored_start

theorem InHalf.eq {unit half : Nat} (hhalf : half = 0 ∨ half = 16)
    (hbegin : o % 32 = 0 ∨ o % 32 = 16) (h : InHalf unit half o) : o % 32 = half := by
  obtain ⟨_, hle, hlt⟩ := h
  omega

theorem half_place (unit : Nat) {half : Nat} (hhalf : half = 0 ∨ half = 16) :
    (unit * 32 + half) / 32 = unit ∧ (unit * 32 + half) % 32 = half := by omega

/-- **Step lemma.** -/
theorem Progress.step (hp : Progress buffers size number s)
    (h : (machine buffers size number mem).step s i = some s') : Progress buffers size number s' := by
  obtain ⟨hat, heffect⟩ := step_effect hp.atUnits h
  cases heffect with
  | load unit half hunit hhalf haligned hmem haccesses hloaded hstored hregs =>
    obtain ⟨hdiv, hmod⟩ := half_place unit hhalf
    refine ⟨hat, ?_, fun o ho => hp.stored o ((hstored o).mp ho), ?_, ?_, ?_⟩
    · intro o ho
      rcases (hloaded o).mp ho with ho' | ho'
      · exact hp.loaded o ho'
      · rw [ho'.1]
        exact hunit
    · rw [haccesses]
      refine List.forall_mem_cons.mpr ⟨⟨unit * 32 + half, ?_, ?_, ?_, ?_, haligned⟩, hp.accesses⟩
      · rw [hdiv]
        exact hunit
      · rw [hmod]
        exact hhalf
      · rw [hdiv]
      · unfold readAt
        rw [hdiv, hmod]
        rfl
    · intro o hbegin ho
      rw [haccesses]
      rcases (hloaded o).mp ho with ho' | ho'
      · exact List.mem_cons_of_mem _ (hp.reads o hbegin ho')
      · unfold readAt
        rw [ho'.eq hhalf hbegin, ho'.1]
        exact List.mem_cons_self
    · intro o hbegin ho
      rw [haccesses]
      exact List.mem_cons_of_mem _ (hp.writes o hbegin ((hstored o).mp ho))
  | store unit half hunit hhalf haligned hmem haccesses hloaded hstored hregs =>
    obtain ⟨hdiv, hmod⟩ := half_place unit hhalf
    refine ⟨hat, fun o ho => hp.loaded o ((hloaded o).mp ho), ?_, ?_, ?_, ?_⟩
    · intro o ho
      rcases (hstored o).mp ho with ho' | ho'
      · exact hp.stored o ho'
      · rw [ho'.1]
        exact hunit
    · rw [haccesses]
      refine List.forall_mem_cons.mpr ⟨⟨unit * 32 + half, ?_, ?_, ?_, ?_, haligned⟩, hp.accesses⟩
      · rw [hdiv]
        exact hunit
      · rw [hmod]
        exact hhalf
      · rw [hdiv]
      · unfold writtenAt
        rw [hdiv, hmod]
        rfl
    · intro o hbegin ho
      rw [haccesses]
      exact List.mem_cons_of_mem _ (hp.reads o hbegin ((hloaded o).mp ho))
    · intro o hbegin ho
      rw [haccesses]
      rcases (hstored o).mp ho with ho' | ho'
      · exact List.mem_cons_of_mem _ (hp.writes o hbegin ho')
      · unfold writtenAt
        rw [ho'.eq hhalf hbegin, ho'.1]
        exact List.mem_cons_self

theorem progress_of_reachable (h : (machine buffers size number mem).Reachable s) :
    Progress buffers size number s := by
  refine h.inv ?_ fun _ _ _ hp _ hstep => hp.step hstep
  rintro s rfl
  exact progress_start

theorem Progress.stored_of_finished (hp : Progress buffers size number s)
    (hfinished : Finished size number s) (ho : o / 32 < size * number / 32) : Stored s o := by
  have hi := Nat.mod_lt (o / 32) threadNumber_pos
  obtain ⟨pass, hpass⟩ := hp.atUnits _ hi
  have hend := hfinished _ hi
  rw [unitSize_eq] at hend
  unfold Stored Thread.storedTo threadOf
  cases (s.threads (o / 32 % threadNumber)).next with
  | loadLo =>
    dsimp only
    omega
  | loadHi =>
    dsimp only
    omega
  | storeLo =>
    dsimp only
    omega
  | storeHi =>
    dsimp only
    omega

theorem loaded_of_stored (h : Stored s o) : Loaded s o := by
  unfold Stored Thread.storedTo at h
  unfold Loaded Thread.loadedTo
  cases hnext : (threadOf s o).next with
  | loadLo =>
    rw [hnext] at h
    exact h
  | loadHi | storeLo =>
    rw [hnext] at h
    exact Nat.lt_add_right _ h
  | storeHi =>
    rw [hnext] at h
    dsimp only at h ⊢
    omega

/-! ## The memory -/

/-- The addresses that are read are not those that are written. -/
def Separate (buffers : Buffers) (size number : Nat) : Prop :=
  ∀ o o', o / 32 < size * number / 32 → o' / 32 < size * number / 32 →
    readAt buffers size o ≠ writtenAt buffers size o'

/-- Where the bytes of the memory and of the registers come from. -/
structure Contents (buffers : Buffers) (size : Nat) (mem : Memory) (s : State) : Prop where
  regs : ∀ o, Current s o → Loaded s o → regAt s o = mem (readAt buffers size o)
  mem : ∀ a, s.mem a = mem a ∧ (∀ o, Stored s o → writtenAt buffers size o ≠ a) ∨
    ∃ o, Stored s o ∧ writtenAt buffers size o = a ∧ s.mem a = mem (readAt buffers size o)

theorem contents_start : Contents buffers size mem (start mem) where
  regs _ _ h := absurd h not_loaded_start
  mem _ := Or.inl ⟨rfl, fun _ h => absurd h not_stored_start⟩

/-- **Step lemma.** -/
theorem Contents.step (hsep : Separate buffers size number) (hp : Progress buffers size number s)
    (hc : Contents buffers size mem s) (h : (machine buffers size number mem).step s i = some s') :
    Contents buffers size mem s' := by
  obtain ⟨-, heffect⟩ := step_effect hp.atUnits h
  cases heffect with
  | load unit half hunit hhalf haligned hmem haccesses hloaded hstored hregs =>
    refine ⟨?_, ?_⟩
    · intro o hcurrent ho
      rcases hregs o hcurrent ho with ⟨hin, hvalue⟩ | ⟨hcurrent', ho', hvalue⟩
      · have hread : s.mem (readAt buffers size o) = mem (readAt buffers size o) := by
          have hunit' : o / 32 < size * number / 32 := by rw [hin.1]; exact hunit
          rcases hc.mem (readAt buffers size o) with ⟨hsame, _⟩ | ⟨o', ho', hwritten, _⟩
          · exact hsame
          · exact absurd hwritten.symm (hsep o o' hunit' (hp.stored o' ho'))
        rw [hvalue, hread]
      · rw [hvalue]
        exact hc.regs o hcurrent' ho'
    · intro a
      rw [hmem]
      rcases hc.mem a with ⟨hsame, hnot⟩ | ⟨o, ho, hwritten, hvalue⟩
      · exact Or.inl ⟨hsame, fun o ho => hnot o ((hstored o).mp ho)⟩
      · exact Or.inr ⟨o, (hstored o).mpr ho, hwritten, hvalue⟩
  | store unit half hunit hhalf haligned hmem haccesses hloaded hstored hregs =>
    refine ⟨?_, ?_⟩
    · intro o hcurrent ho
      obtain ⟨hcurrent', ho', hvalue⟩ := hregs o hcurrent ho
      rw [hvalue]
      exact hc.regs o hcurrent' ho'
    · intro a
      rcases hmem a with ⟨o, hin, hwritten, hcurrent, ho, hvalue⟩ | ⟨hnotIn, hsame⟩
      · refine Or.inr ⟨o, (hstored o).mpr (Or.inr hin), hwritten, ?_⟩
        rw [hvalue]
        exact hc.regs o hcurrent ho
      · rw [hsame]
        rcases hc.mem a with ⟨hsame', hnot⟩ | ⟨o, ho, hwritten, hvalue⟩
        · refine Or.inl ⟨hsame', fun o ho => ?_⟩
          rcases (hstored o).mp ho with ho' | hin
          · exact hnot o ho'
          · exact hnotIn o hin
        · exact Or.inr ⟨o, (hstored o).mpr (Or.inl ho), hwritten, hvalue⟩

theorem contents_of_reachable (hsep : Separate buffers size number)
    (h : (machine buffers size number mem).Reachable s) : Contents buffers size mem s := by
  have hboth : Progress buffers size number s ∧ Contents buffers size mem s := by
    refine h.inv (I := fun s => Progress buffers size number s ∧ Contents buffers size mem s) ?_ ?_
    · rintro s rfl
      exact ⟨progress_start, contents_start⟩
    · rintro s i s' ⟨hp, hc⟩ _ hstep
      exact ⟨hp.step hstep, hc.step hsep hp hstep⟩
  exact hboth.2

/-! ## The end -/

/-- The first address of every unit can be accessed. -/
def Aligned (buffers : Buffers) (size number : Nat) : Prop :=
  ∀ unit < size * number / unitSize, hostOf size (unit * unitSize) buffers % vectorSize = 0 ∧
    deviceOf size (unit * unitSize) buffers % vectorSize = 0

/-- How far a thread is from leaving the loop. -/
def remaining (size number : Nat) (t : Thread) : Nat :=
  4 * (size * number - t.offset) + match t.next with
    | .loadLo => 3
    | .loadHi => 2
    | .storeLo => 1
    | .storeHi => 0

theorem exists_step (mem : Memory) (haligned : Aligned buffers size number) (hat : AtUnits s)
    (hi : i < threadNumber) (hloop : (s.threads i).offset + unitSize ≤ size * number) :
    ∃ t m accesses, (machine buffers size number mem).step s i =
        some ⟨m, update s.threads i t, accesses⟩ ∧
      remaining size number t < remaining size number (s.threads i) := by
  obtain ⟨pass, hoffset⟩ := hat i hi
  have hpos := threadNumber_pos
  have hloop' := hloop
  rw [unitSize_eq] at hloop'
  have hunit := haligned (i + threadNumber * pass) (by rw [unitSize_eq]; omega)
  rw [unitSize_eq, ← hoffset, vectorSize_eq] at hunit
  obtain ⟨hhost, hdevice⟩ := hunit
  have hcond : i < threadNumber ∧ (s.threads i).offset + unitSize ≤ size * number := ⟨hi, hloop⟩
  have hstep : (machine buffers size number mem).step s i = stepThread buffers size s i := if_pos hcond
  have hload : ∀ address, address % 16 = 0 → load s i address =
      some ((List.range vectorSize).map fun j => s.mem (address + j), ⟨i, false, address⟩ :: s.accesses) :=
    fun address ha => if_pos ha
  have hstore : ∀ address vector, address % 16 = 0 → store s i address vector =
      some (fun a => if address ≤ a ∧ a < address + vectorSize then vector.getD (a - address) 0
        else s.mem a, ⟨i, true, address⟩ :: s.accesses) := fun address vector ha => if_pos ha
  rw [hstep]
  unfold stepThread remaining
  cases hnext : (s.threads i).next with
  | loadLo =>
    simp only [hnext]
    rw [hload _ hhost]
    exact ⟨_, _, _, rfl, by dsimp only; omega⟩
  | loadHi =>
    simp only [hnext]
    rw [hload _ (by rw [vectorSize_eq]; omega)]
    exact ⟨_, _, _, rfl, by dsimp only; omega⟩
  | storeLo =>
    simp only [hnext]
    rw [hstore _ _ hdevice]
    exact ⟨_, _, _, rfl, by dsimp only; omega⟩
  | storeHi =>
    simp only [hnext]
    rw [hstore _ _ (by rw [vectorSize_eq]; omega)]
    refine ⟨_, _, _, rfl, ?_⟩
    dsimp only
    rw [unitSize_eq]
    omega

/-- How far all threads are from leaving the loop. -/
def allRemaining (size number : Nat) (threads : Nat → Thread) : Nat :=
  ∑ i ∈ Finset.range threadNumber, remaining size number (threads i)

theorem allRemaining_update {threads : Nat → Thread} (hi : i < threadNumber)
    (hless : remaining size number t < remaining size number (threads i)) :
    allRemaining size number (update threads i t) < allRemaining size number threads := by
  refine Finset.sum_lt_sum (fun k _ => ?_) ⟨i, Finset.mem_range.mpr hi, ?_⟩
  · by_cases hki : k = i
    · rw [hki, update_self]
      exact Nat.le_of_lt hless
    · rw [update_of_ne hki]
  · rw [update_self]
    exact hless

theorem exists_finished (haligned : Aligned buffers size number)
    (h : (machine buffers size number mem).Reachable s) :
    ∃ s', ((machine buffers size number mem).after s).Reachable s' ∧ Finished size number s' := by
  obtain ⟨s', hlater, -, hfinished⟩ := Machine.exists_later (M := machine buffers size number mem)
    (C := fun _ _ => True) (I := AtUnits) (G := Finished size number)
    (fun s => allRemaining size number s.threads)
    (fun s hat hnot => by
      unfold Finished at hnot
      push Not at hnot
      obtain ⟨i, hi, hloop⟩ := hnot
      obtain ⟨t, m, accesses, hstep, hless⟩ := exists_step mem haligned hat hi hloop
      exact ⟨i, _, trivial, hstep, (step_effect hat hstep).1, allRemaining_update hi hless⟩)
    (progress_of_reachable h).atUnits
  exact ⟨s', hlater, hfinished⟩

end UnifiedCache.Trans.CudaSmStream
