import Mathlib.Data.List.Basic
import Mathlib.Data.List.Induction
import Mathlib.Algebra.Order.Group.Nat
import Mathlib.Algebra.Order.Ring.Nat
import Mathlib.Tactic.Common

/-!
# Words of a fixed width

A number below `base ^ n` is written in one way as a word of `n` digits over an alphabet, the leading
digit first. The first digits of a word are the word of the leading part of the number, and what a word
reads as is the number again.

The last section is about words with separators: the part after the last one is determined.
-/

namespace Lib.Words

variable {α : Type*} {base n m x y : Nat} {digit : Nat → α}

/-- The word of the last `n` digits of a number. -/
def word (base : Nat) (digit : Nat → α) : Nat → Nat → List α
  | 0, _ => []
  | n + 1, x => word base digit n (x / base) ++ [digit (x % base)]

/-- What a word reads as. -/
def value (base : Nat) (undigit : α → Nat) (s : List α) : Nat :=
  s.foldl (fun acc c => acc * base + undigit c) 0

@[simp] theorem length_word : (word base digit n x).length = n := by
  induction n generalizing x with
  | zero => rfl
  | succ n ih => rw [word, List.length_append, ih, List.length_singleton]

theorem mem_word {c : α} (hbase : 0 < base) (hc : c ∈ word base digit n x) :
    ∃ d < base, digit d = c := by
  induction n generalizing x with
  | zero => cases hc
  | succ n ih =>
    rcases List.mem_append.mp hc with h | h
    · exact ih h
    · exact ⟨x % base, Nat.mod_lt x hbase, (List.mem_singleton.mp h).symm⟩

theorem take_word : (word base digit (n + m) x).take n = word base digit n (x / base ^ m) := by
  induction m generalizing x with
  | zero =>
    rw [Nat.add_zero, pow_zero, Nat.div_one]
    exact List.take_of_length_le (Nat.le_of_eq length_word)
  | succ m ih =>
    rw [← Nat.add_assoc, word, List.take_append_of_le_length (by rw [length_word]; omega), ih,
      Nat.div_div_eq_div_mul, pow_succ, Nat.mul_comm]

theorem value_word {undigit : α → Nat} (hdigit : ∀ d < base, undigit (digit d) = d)
    (hx : x < base ^ n) : value base undigit (word base digit n x) = x := by
  induction n generalizing x with
  | zero =>
    have hzero : x = 0 := Nat.lt_one_iff.mp hx
    rw [hzero]
    rfl
  | succ n ih =>
    have hbase : 0 < base := Nat.pos_of_ne_zero fun h => by
      rw [h, pow_succ, Nat.mul_zero] at hx
      exact Nat.not_lt_zero _ hx
    have hlt : x / base < base ^ n := Nat.div_lt_of_lt_mul (by rwa [Nat.mul_comm, ← pow_succ])
    have hrest := ih hlt
    unfold value at hrest ⊢
    rw [word, List.foldl_append, hrest, List.foldl_cons, List.foldl_nil,
      hdigit _ (Nat.mod_lt x hbase)]
    exact Nat.div_add_mod' x base

theorem word_inj {undigit : α → Nat} (hdigit : ∀ d < base, undigit (digit d) = d)
    (hx : x < base ^ n) (hy : y < base ^ n) (h : word base digit n x = word base digit n y) :
    x = y := by
  rw [← value_word hdigit hx, h, value_word hdigit hy]

/-! ## Hexadecimal digits -/

/-- The digit of a number below 16, in lower case. -/
def hexDigit (d : Nat) : Char := "0123456789abcdef".toList.getD d '0'

/-- What a hexadecimal digit stands for. -/
def unhexDigit (c : Char) : Nat := "0123456789abcdef".toList.idxOf c

theorem unhexDigit_hexDigit : ∀ d < 16, unhexDigit (hexDigit d) = d := by decide

theorem toNat_hexDigit : ∀ d < 16, 47 < (hexDigit d).toNat := by decide

/-! ## Separators -/

theorem append_cons_inj {c : α} {d d' s s' : List α} (hs : c ∉ s) (hs' : c ∉ s')
    (h : d ++ c :: s = d' ++ c :: s') : d = d' ∧ s = s' := by
  rcases List.append_eq_append_iff.mp h with ⟨t, rfl, ht⟩ | ⟨t, rfl, ht⟩
  · cases t with
    | nil =>
      rw [List.nil_append] at ht
      exact ⟨(List.append_nil d).symm, (List.cons.inj ht).2⟩
    | cons a t =>
      obtain ⟨-, rfl⟩ := List.cons.inj ht
      exact absurd (List.mem_append_right t List.mem_cons_self) hs
  · cases t with
    | nil =>
      rw [List.nil_append] at ht
      exact ⟨List.append_nil d', (List.cons.inj ht).2.symm⟩
    | cons a t =>
      obtain ⟨-, rfl⟩ := List.cons.inj ht
      exact absurd (List.mem_append_right t List.mem_cons_self) hs'

end Lib.Words
