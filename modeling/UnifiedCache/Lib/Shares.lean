import Mathlib.Data.List.Basic
import Mathlib.Tactic.Ring

/-!
# Even shares

A list is cut into `k` parts in order. Of `n` elements each part gets `n / k`, and the first `n % k`
parts get one more.
-/

namespace Lib.Shares

variable {α : Type*} {n k i j : Nat}

/-- How many elements the `i`-th part gets. -/
def share (n k i : Nat) : Nat := n / k + if i < n % k then 1 else 0

/-- Where the `i`-th part starts. -/
def start (n k i : Nat) : Nat := i * (n / k) + min i (n % k)

@[simp] theorem start_zero (n k : Nat) : start n k 0 = 0 := by simp [start]

theorem start_succ (n k i : Nat) : start n k (i + 1) = start n k i + share n k i := by
  have hmul : (i + 1) * (n / k) = i * (n / k) + n / k := by ring
  unfold start share
  split <;> omega

theorem start_end (hk : 0 < k) : start n k k = n := by
  have hmod : n % k < k := Nat.mod_lt n hk
  have hdiv : k * (n / k) + n % k = n := Nat.div_add_mod n k
  unfold start
  omega

theorem start_mono (h : i ≤ j) : start n k i ≤ start n k j := by
  induction h with
  | refl => exact Nat.le_refl _
  | step _ ih =>
    rw [start_succ]
    omega

theorem start_add_share_le (hi : i < k) : start n k i + share n k i ≤ n := by
  rw [← start_succ]
  calc start n k (i + 1) ≤ start n k k := start_mono hi
    _ = n := start_end (by omega)

theorem share_le (n k i j : Nat) : share n k i ≤ share n k j + 1 := by
  unfold share
  split <;> split <;> omega

theorem share_pos (hk : 0 < k) (h : k ≤ n) (i : Nat) : 0 < share n k i := by
  have hpos : 0 < n / k := Nat.div_pos h hk
  unfold share
  omega

/-- The `i`-th part. -/
def part (l : List α) (k i : Nat) : List α := (l.drop (start l.length k i)).take (share l.length k i)

/-- All parts. -/
def parts (l : List α) (k : Nat) : List (List α) := (List.range k).map (part l k)

@[simp] theorem length_parts (l : List α) (k : Nat) : (parts l k).length = k := by simp [parts]

theorem length_part (l : List α) (hi : i < k) : (part l k i).length = share l.length k i := by
  have hend := start_add_share_le (n := l.length) hi
  unfold part
  rw [List.length_take, List.length_drop]
  omega

theorem flatten_take (l : List α) (k i : Nat) :
    ((List.range i).map (part l k)).flatten = l.take (start l.length k i) := by
  induction i with
  | zero => simp
  | succ i ih =>
    rw [List.range_succ, List.map_append, List.flatten_append, ih, start_succ, List.take_add]
    simp [part]

/-- **The parts make up the list.** -/
theorem flatten_parts (l : List α) (hk : 0 < k) : (parts l k).flatten = l := by
  unfold parts
  rw [flatten_take, start_end hk, List.take_length]

theorem length_of_mem_parts {l p : List α} (hp : p ∈ parts l k) :
    ∃ i < k, p.length = share l.length k i := by
  obtain ⟨i, hi, rfl⟩ := List.mem_map.mp hp
  have hi : i < k := List.mem_range.mp hi
  exact ⟨i, hi, length_part l hi⟩

theorem length_parts_le {l p q : List α} (hp : p ∈ parts l k) (hq : q ∈ parts l k) :
    p.length ≤ q.length + 1 := by
  obtain ⟨i, -, hi⟩ := length_of_mem_parts hp
  obtain ⟨j, -, hj⟩ := length_of_mem_parts hq
  rw [hi, hj]
  exact share_le l.length k i j

theorem ne_nil_of_mem_parts {l p : List α} (hk : 0 < k) (h : k ≤ l.length) (hp : p ∈ parts l k) :
    p ≠ [] := by
  obtain ⟨i, -, hi⟩ := length_of_mem_parts hp
  have hpos := share_pos hk h i
  rintro rfl
  rw [List.length_nil] at hi
  omega

end Lib.Shares
