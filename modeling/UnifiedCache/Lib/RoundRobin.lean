import Mathlib.Data.List.Perm.Basic
import Mathlib.Data.List.Nodup
import Mathlib.Tactic.Common

/-!
# Round robin

Numbers that are dealt out by their remainder. The numbers of a range with one remainder are those from
the first of them on in steps, each with the next quotient, and every number has one remainder only.
-/

namespace Lib.RoundRobin

variable {α : Type*} {n r start stop first b : Nat}

/-- The numbers from `start` on and below `stop` with remainder `r`. -/
def turns (n r start stop : Nat) : List Nat :=
  (List.range' start (stop - start)).filter fun b => b % n = r

theorem mem_turns : b ∈ turns n r start stop ↔ (start ≤ b ∧ b < stop) ∧ b % n = r := by
  unfold turns
  rw [List.mem_filter, decide_eq_true_eq, List.mem_range'_1]
  refine and_congr_left fun _ => ?_
  omega

theorem lt_steps_iff (hn : 0 < n) {x i : Nat} : i < (x + (n - 1)) / n ↔ n * i < x := by
  show i + 1 ≤ _ ↔ _
  rw [Nat.le_div_iff_mul_le hn, Nat.add_mul, Nat.mul_comm i n]
  omega

theorem first_le (start : Nat) (hlt : first < start + n) (hb : start ≤ b) (hmod : b % n = first % n) : first ≤ b := by
  by_contra h
  have hzero := Nat.sub_mod_eq_zero_of_mod_eq hmod.symm
  have hsmall : first - b < n := by omega
  rw [Nat.mod_eq_of_lt hsmall] at hzero
  omega

theorem turns_eq_range' (hn : 0 < n) (hstart : start ≤ first) (hlt : first < start + n)
    (hmod : first % n = r) :
    turns n r start stop = List.range' first ((stop - first + (n - 1)) / n) n := by
  have hsorted : (turns n r start stop).Pairwise (· < ·) :=
    List.Pairwise.filter _ List.pairwise_lt_range'
  have hsorted' : (List.range' first ((stop - first + (n - 1)) / n) n).Pairwise (· < ·) :=
    List.pairwise_lt_range' n hn
  refine List.Perm.eq_of_pairwise (fun a b _ _ hab hba => absurd hab (Nat.lt_asymm hba)) hsorted
    hsorted' ?_
  refine (List.perm_ext_iff_of_nodup (hsorted.imp Nat.ne_of_lt) (hsorted'.imp Nat.ne_of_lt)).mpr ?_
  intro b
  rw [mem_turns, List.mem_range']
  constructor
  · rintro ⟨⟨hb, hstop⟩, hr⟩
    have hle := first_le start hlt hb (hr.trans hmod.symm)
    obtain ⟨i, hi⟩ := Nat.dvd_of_mod_eq_zero (Nat.sub_mod_eq_zero_of_mod_eq (hr.trans hmod.symm))
    refine ⟨i, (lt_steps_iff hn).mpr ?_, ?_⟩
    · omega
    · omega
  · rintro ⟨i, hi, rfl⟩
    have hlt' := (lt_steps_iff hn).mp hi
    refine ⟨⟨?_, ?_⟩, ?_⟩
    · exact Nat.le_add_right_of_le hstart
    · omega
    · rw [Nat.add_mul_mod_self_left]
      exact hmod

theorem div_step (hn : 0 < n) (first k : Nat) : (first + n * k) / n = first / n + k :=
  Nat.add_mul_div_left first k hn

theorem flatMap_filter_perm {f : α → Nat} {l : List α} (h : ∀ x ∈ l, f x < n) :
    ((List.range n).flatMap fun r => l.filter fun x => f x = r).Perm l := by
  induction n generalizing l with
  | zero =>
    cases l with
    | nil => exact List.Perm.refl _
    | cons x l => exact absurd (h x List.mem_cons_self) (Nat.not_lt_zero _)
  | succ n ih =>
    have hrest : ∀ x ∈ l.filter (fun x => ¬f x = n), f x < n := by
      intro x hx
      obtain ⟨hmem, hne⟩ := List.mem_filter.mp hx
      have hlt := h x hmem
      have hne' := of_decide_eq_true hne
      omega
    have hbelow : ((List.range n).flatMap fun r => l.filter fun x => f x = r) =
        (List.range n).flatMap fun r => (l.filter fun x => ¬f x = n).filter fun x => f x = r := by
      refine List.flatMap_congr fun r hr => ?_
      rw [List.filter_filter]
      refine List.filter_congr fun x _ => ?_
      have hr' := List.mem_range.mp hr
      by_cases hx : f x = r
      · have hne : f x ≠ n := by omega
        rw [decide_eq_true hx, decide_eq_true hne, Bool.and_self]
      · rw [decide_eq_false hx, Bool.false_and]
    have hsplit := List.filter_append_perm (fun x => decide (f x = n)) l
    rw [List.range_succ, List.flatMap_append, List.flatMap_singleton, hbelow]
    refine ((ih hrest).append_right _).trans (List.perm_append_comm.trans ?_)
    refine List.Perm.trans ?_ hsplit
    refine List.Perm.append_left _ (List.Perm.of_eq ?_)
    refine List.filter_congr fun x _ => ?_
    rw [decide_not]

theorem flatMap_turns (hn : 0 < n) (start stop : Nat) :
    ((List.range n).flatMap fun r => turns n r start stop).Perm (List.range' start (stop - start)) :=
  flatMap_filter_perm fun _ _ => Nat.mod_lt _ hn

end Lib.RoundRobin
