import Mathlib.Data.List.Infix
import Mathlib.Data.Nat.Basic
import Mathlib.Algebra.Order.Floor.Div
import Mathlib.Algebra.Order.Ring.Nat

/-!
# Pages

Slots in pages of one size. A table of pages has the slots of its pages, one after the other, and a
sequence has the first of these. If sequences follow each other and their tables do, the slots still
correspond exactly if all sequences but the last one fill their pages.
-/

namespace Lib.Pages

variable {β : Type*} {size : Nat}

/-! ## Numbers of pages -/

theorem ceilDiv_mul_add {b k r : Nat} (hr : 0 < r) (hrb : r < b) : (k * b + r) ⌈/⌉ b = k + 1 := by
  rw [Nat.ceilDiv_eq_add_pred_div, Nat.add_assoc, Nat.add_sub_assoc (by omega), Nat.add_comm,
    Nat.add_mul_div_right _ _ (by omega), show (r + b - 1) / b = 1 by
      apply Nat.div_eq_of_lt_le <;> omega]
  omega

theorem mul_ceilDiv {b : Nat} (hb : 0 < b) (k : Nat) : (k * b) ⌈/⌉ b = k := by
  rw [Nat.ceilDiv_eq_add_pred_div, Nat.add_sub_assoc hb, Nat.add_comm,
    Nat.add_mul_div_right _ _ hb, Nat.div_eq_of_lt (by omega), Nat.zero_add]

theorem ceilDiv_eq {b : Nat} (hb : 0 < b) (n : Nat) : n ⌈/⌉ b = n / b + if b ∣ n then 0 else 1 := by
  have hdiv := Nat.div_add_mod' n b
  split_ifs with hdvd
  · have hmul := Nat.div_mul_cancel hdvd
    conv_lhs => rw [← hmul]
    exact mul_ceilDiv hb _
  · have hmod : 0 < n % b := Nat.pos_of_ne_zero fun h => hdvd (Nat.dvd_of_mod_eq_zero h)
    conv_lhs => rw [← hdiv]
    exact ceilDiv_mul_add hmod (Nat.mod_lt _ hb)

theorem succ_ceilDiv {b : Nat} (hb : 0 < b) (n : Nat) : (n + 1) ⌈/⌉ b = n / b + 1 := by
  rw [Nat.ceilDiv_eq_add_pred_div, Nat.add_assoc, Nat.add_sub_assoc (by omega),
    Nat.add_sub_cancel_left, Nat.add_div_right _ hb]

theorem mul_add_ceilDiv {b : Nat} (hb : 0 < b) (k n : Nat) : (k * b + n) ⌈/⌉ b = k + n ⌈/⌉ b := by
  rw [Nat.ceilDiv_eq_add_pred_div, Nat.ceilDiv_eq_add_pred_div, Nat.add_assoc,
    Nat.add_sub_assoc (by omega), Nat.add_comm, Nat.add_mul_div_right _ _ hb, Nat.add_comm]

/-! ## Slots -/

/-- The slots of some pages, as pages and offsets. -/
def slots (size : Nat) (pages : List β) : List (β × Nat) :=
  pages.flatMap fun p => (List.range size).map fun i => (p, i)

theorem slots_cons (p : β) (pages : List β) :
    slots size (p :: pages) = ((List.range size).map fun i => (p, i)) ++ slots size pages := rfl

theorem slots_append (pages pages' : List β) :
    slots size (pages ++ pages') = slots size pages ++ slots size pages' :=
  List.flatMap_append

theorem length_slots (pages : List β) : (slots size pages).length = pages.length * size := by
  rw [slots, List.length_flatMap]
  simp

theorem getElem?_slots (hsize : 0 < size) (pages : List β) (i : Nat) :
    (slots size pages)[i]? = pages[i / size]?.map fun p => (p, i % size) := by
  induction pages generalizing i with
  | nil => rfl
  | cons p pages ih =>
    rw [slots_cons]
    by_cases hi : i < size
    · rw [List.getElem?_append_left (by simpa using hi), List.getElem?_map,
        List.getElem?_range hi, Nat.div_eq_of_lt hi, Nat.mod_eq_of_lt hi]
      rfl
    · have hle : size ≤ i := Nat.le_of_not_lt hi
      rw [List.getElem?_append_right (by simpa using hle), List.length_map, List.length_range, ih,
        Nat.div_eq_sub_div hsize hle, Nat.mod_eq_sub_mod hle, List.getElem?_cons_succ]

/-- A sequence: its pages and how many slots it has. -/
structure Seq (β : Type*) where
  pages : List β
  length : Nat

namespace Seq

variable {s : Seq β} {seqs : List (Seq β)}

/-- The slots of a sequence. -/
def slots (size : Nat) (s : Seq β) : List (β × Nat) := (Pages.slots size s.pages).take s.length

/-- It has a slot, and as many pages as it needs. -/
structure Tight (size : Nat) (s : Seq β) : Prop where
  pos : 0 < s.length
  le : s.length ≤ s.pages.length * size
  lt : s.pages.length * size < s.length + size

theorem Tight.full (h : s.Tight size) (hmod : s.length % size = 0) :
    s.pages.length * size = s.length := by
  obtain ⟨k, hk⟩ := Nat.dvd_of_mod_eq_zero hmod
  have hle := h.le
  have hlt := h.lt
  rw [hk, Nat.mul_comm size k] at hle hlt ⊢
  rw [← Nat.succ_mul] at hlt
  have hpages : s.pages.length < k + 1 := Nat.lt_of_mul_lt_mul_right hlt
  have hsize : 0 < size := Nat.pos_of_ne_zero fun hzero => by
    have := h.pos
    rw [hk, hzero, Nat.zero_mul] at this
    omega
  have hpages' : k ≤ s.pages.length := Nat.le_of_mul_le_mul_right hle hsize
  rw [Nat.le_antisymm (Nat.lt_succ_iff.mp hpages) hpages']

theorem length_slots (h : s.Tight size) : (s.slots size).length = s.length := by
  rw [slots, List.length_take, Pages.length_slots]
  exact Nat.min_eq_left h.le

theorem head_slots (h : s.Tight size) : ∃ p rest, s.slots size = (p, 0) :: rest := by
  obtain ⟨n, hn⟩ := Nat.exists_eq_succ_of_ne_zero h.pos.ne'
  have hsize : 0 < size := Nat.pos_of_ne_zero fun hzero => by
    have hle := h.le
    rw [hzero, Nat.mul_zero] at hle
    omega
  obtain ⟨k, hk⟩ := Nat.exists_eq_succ_of_ne_zero hsize.ne'
  cases hpages : s.pages with
  | nil =>
    have hle := h.le
    rw [hpages, List.length_nil, Nat.zero_mul] at hle
    omega
  | cons p pages =>
    have hslots : Pages.slots size (p :: pages) = (p, 0) :: (Pages.slots size (p :: pages)).tail := by
      rw [slots_cons, hk, List.range_succ_eq_map]
      rfl
    exact ⟨p, _, by rw [slots, hpages, hslots, hn, List.take_succ_cons]⟩

theorem drop_slots (hsize : 0 < size) (h : s.Tight size) (hmod : s.length % size ≠ 0) :
    ∃ p rest, (Pages.slots size s.pages).drop s.length = (p, s.length % size) :: rest := by
  have hlt : s.length < (Pages.slots size s.pages).length := by
    rw [Pages.length_slots]
    refine Nat.lt_of_le_of_ne h.le fun heq => hmod ?_
    rw [heq, Nat.mul_mod_left]
  have hsome := getElem?_slots hsize s.pages s.length
  rw [List.getElem?_eq_getElem hlt] at hsome
  obtain ⟨p, -, hp⟩ := Option.map_eq_some_iff.mp hsome.symm
  exact ⟨p, _, (List.drop_eq_getElem_cons hlt).trans (congrArg (· :: _) hp.symm)⟩

/-- **Packing**: the slots of the sequences are the first ones of all pages if and only if every
sequence but the last one fills its pages. -/
theorem packed_prefix_iff (hsize : 0 < size) (h : ∀ s ∈ seqs, s.Tight size) :
    seqs.flatMap (slots size) <+: Pages.slots size (seqs.flatMap pages) ↔
      ∀ s ∈ seqs.dropLast, s.length % size = 0 := by
  induction seqs with
  | nil => simp [Pages.slots]
  | cons s rest ih =>
    have hs := h s List.mem_cons_self
    have ih := ih fun s' hs' => h s' (List.mem_cons_of_mem _ hs')
    cases rest with
    | nil =>
      rw [List.flatMap_singleton, List.flatMap_singleton]
      exact iff_of_true (List.take_prefix _ _) (by simp)
    | cons s' rest =>
      have hsplit := List.take_append_drop s.length (Pages.slots size s.pages)
      rw [List.flatMap_cons, List.flatMap_cons (f := pages), slots_append, List.dropLast_cons_cons,
        List.forall_mem_cons, ← ih]
      by_cases hmod : s.length % size = 0
      · have hall : s.slots size = Pages.slots size s.pages := by
          refine List.take_of_length_le ?_
          rw [Pages.length_slots, hs.full hmod]
        rw [hall, List.prefix_append_right_inj]
        exact ⟨fun hp => ⟨hmod, hp⟩, And.right⟩
      · refine iff_of_false (fun hp => ?_) fun hp => hmod hp.1
        rw [slots, ← hsplit, List.append_assoc, List.take_left' (by
          rw [List.length_take, Pages.length_slots, Nat.min_eq_left hs.le]),
          List.prefix_append_right_inj] at hp
        obtain ⟨p, l, hhead⟩ := head_slots (h s' (List.mem_cons_of_mem _ List.mem_cons_self))
        obtain ⟨p', l', hdrop⟩ := drop_slots hsize hs hmod
        rw [List.flatMap_cons, hhead, hdrop, List.cons_append, List.cons_append,
          List.cons_prefix_cons] at hp
        exact hmod (Prod.mk.inj hp.1).2.symm

theorem pages_lt (hsize : 0 < size) (h : ∀ s ∈ seqs, s.Tight size)
    (hfull : ∀ s ∈ seqs.dropLast, s.length % size = 0) :
    (seqs.flatMap pages).length * size < (seqs.map length).sum + size := by
  induction seqs with
  | nil =>
    rw [List.flatMap_nil, List.length_nil, Nat.zero_mul]
    exact Nat.add_pos_right _ hsize
  | cons s rest ih =>
    have hs := h s List.mem_cons_self
    have ih := ih fun s' hs' => h s' (List.mem_cons_of_mem _ hs')
    rw [List.flatMap_cons, List.length_append, Nat.add_mul, List.map_cons, List.sum_cons]
    cases rest with
    | nil =>
      rw [List.flatMap_nil, List.length_nil, Nat.zero_mul, List.map_nil, List.sum_nil]
      exact hs.lt
    | cons s' rest =>
      rw [List.dropLast_cons_cons, List.forall_mem_cons] at hfull
      have hlt := ih hfull.2
      rw [hs.full hfull.1]
      omega

end Seq

end Lib.Pages
