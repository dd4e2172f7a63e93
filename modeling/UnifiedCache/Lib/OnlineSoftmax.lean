import Mathlib.Algebra.Order.BigOperators.Ring.Finset
import Mathlib.Algebra.Order.Field.Basic
import Mathlib.Order.WithBot
import Mathlib.Tactic.Ring

/-!
# A softmax over tiles

The keys of a row come in tiles. Of the tiles so far one keeps a reference score, the sum of the
exponentials against it, and the values weighted by them. A new reference rescales both sums, so
their quotient does not depend on the references: it is the softmax over all the keys. Several such
states, over different keys, are combined in the same way. A key whose score is `⊥` is masked.
-/

open Finset

namespace Lib.OnlineSoftmax

variable {α κ δ ι : Type*} [Field α] {exp : α → α}

/-- The exponential of a score. A masked key has none. -/
def expBot (exp : α → α) (score : WithBot α) : α := score.recBotCoe 0 exp

/-- A score against a reference. -/
def against (score : WithBot α) (ref : α) : WithBot α := score.map (· - ref)

@[simp] theorem expBot_bot : expBot exp ⊥ = 0 := rfl

@[simp] theorem expBot_coe (x : α) : expBot exp x = exp x := rfl

@[simp] theorem against_bot (ref : α) : against ⊥ ref = ⊥ := rfl

@[simp] theorem against_coe (x ref : α) : against (x : WithBot α) ref = ((x - ref : α) : WithBot α) := rfl

@[ext]
structure Accum (α δ : Type*) where
  /-- The reference. There is none before the first tile. -/
  ref : WithBot α
  sum : α
  acc : δ → α

/-- The state after one more tile, with this reference. -/
def Accum.absorb (exp : α → α) (score : κ → WithBot α) (value : κ → δ → α) (tile : Finset κ) (ref : α)
    (s : Accum α δ) : Accum α δ where
  ref := ref
  sum := s.sum * expBot exp (against s.ref ref) + ∑ k ∈ tile, expBot exp (against (score k) ref)
  acc d := s.acc d * expBot exp (against s.ref ref) +
    ∑ k ∈ tile, expBot exp (against (score k) ref) * value k d

/-- The exponentials of some keys. -/
def mass (exp : α → α) (score : κ → WithBot α) (keys : Finset κ) : α := ∑ k ∈ keys, expBot exp (score k)

/-- Their weighted values. -/
def weighted (exp : α → α) (score : κ → WithBot α) (value : κ → δ → α) (keys : Finset κ) (d : δ) : α :=
  ∑ k ∈ keys, expBot exp (score k) * value k d

/-- The softmax over some keys. -/
def softmax (exp : α → α) (score : κ → WithBot α) (value : κ → δ → α) (keys : Finset κ) (d : δ) : α :=
  weighted exp score value keys d / mass exp score keys

variable {score : κ → WithBot α} {value : κ → δ → α} {keys tile : Finset κ} {s : Accum α δ}

/-- The state holds these keys. -/
structure Accum.Holds (exp : α → α) (score : κ → WithBot α) (value : κ → δ → α) (keys : Finset κ)
    (ref : α) (s : Accum α δ) : Prop where
  ref_eq : s.ref = ref
  sum_eq : s.sum = exp (-ref) * mass exp score keys
  acc_eq : ∀ d, s.acc d = exp (-ref) * weighted exp score value keys d

theorem softmax_filter {visible : κ → Prop} [DecidablePred visible] {logit : κ → α}
    (hscore : ∀ k ∈ keys, score k = if visible k then (logit k : WithBot α) else ⊥) (d : δ) :
    softmax exp score value keys d =
      (∑ k ∈ keys with visible k, exp (logit k) * value k d) / ∑ k ∈ keys with visible k, exp (logit k) := by
  unfold softmax weighted mass
  rw [sum_filter, sum_filter]
  congr 1
  · refine sum_congr rfl fun k hk => ?_
    rw [hscore k hk]
    split <;> simp
  · refine sum_congr rfl fun k hk => ?_
    rw [hscore k hk]
    split <;> simp

/-! ## The laws -/

variable [LinearOrder α]

/-- What is used of the exponential. -/
structure ExpLaws (exp : α → α) : Prop where
  add : ∀ x y, exp (x + y) = exp x * exp y
  pos : ∀ x, 0 < exp x

theorem ExpLaws.rescale (h : ExpLaws exp) (ref ref' : α) (x : α) :
    exp (-ref) * exp (ref - ref') * x = exp (-ref') * x := by
  rw [← h.add, neg_add_eq_sub, sub_sub_cancel_left]

theorem expBot_against (h : ExpLaws exp) (score : WithBot α) (ref : α) :
    expBot exp (against score ref) = exp (-ref) * expBot exp score := by
  induction score with
  | bot => rw [against_bot, expBot_bot, mul_zero]
  | coe x => rw [against_coe, expBot_coe, expBot_coe, ← h.add, neg_add_eq_sub]

theorem mass_against (h : ExpLaws exp) (tile : Finset κ) (ref : α) :
    ∑ k ∈ tile, expBot exp (against (score k) ref) = exp (-ref) * mass exp score tile := by
  unfold mass
  rw [mul_sum]
  exact sum_congr rfl fun k _ => expBot_against h (score k) ref

theorem weighted_against (h : ExpLaws exp) (tile : Finset κ) (ref : α) (d : δ) :
    ∑ k ∈ tile, expBot exp (against (score k) ref) * value k d =
      exp (-ref) * weighted exp score value tile d := by
  unfold weighted
  rw [mul_sum]
  refine sum_congr rfl fun k _ => ?_
  rw [expBot_against h, mul_assoc]

theorem Accum.holds_first (h : ExpLaws exp) (href : s.ref = ⊥) (tile : Finset κ) (ref : α) :
    (s.absorb exp score value tile ref).Holds exp score value tile ref where
  ref_eq := rfl
  sum_eq := by
    show s.sum * expBot exp (against s.ref ref) + _ = _
    rw [href, against_bot, expBot_bot, mul_zero, zero_add, mass_against h]
  acc_eq d := by
    show s.acc d * expBot exp (against s.ref ref) + _ = _
    rw [href, against_bot, expBot_bot, mul_zero, zero_add, weighted_against h]

theorem Accum.Holds.sum_rescale (h : ExpLaws exp) {ref : α} (hs : s.Holds exp score value keys ref)
    (ref' : α) : s.sum * expBot exp (against s.ref ref') = exp (-ref') * mass exp score keys := by
  rw [hs.sum_eq, hs.ref_eq, against_coe, expBot_coe, mul_right_comm, h.rescale]

theorem Accum.Holds.acc_rescale (h : ExpLaws exp) {ref : α} (hs : s.Holds exp score value keys ref)
    (ref' : α) (d : δ) :
    s.acc d * expBot exp (against s.ref ref') = exp (-ref') * weighted exp score value keys d := by
  rw [hs.acc_eq, hs.ref_eq, against_coe, expBot_coe, mul_right_comm, h.rescale]

/-- **One more tile**, whatever its reference. -/
theorem Accum.Holds.absorb [DecidableEq κ] (h : ExpLaws exp) {ref : α}
    (hs : s.Holds exp score value keys ref) (hdisj : Disjoint keys tile) (ref' : α) :
    (s.absorb exp score value tile ref').Holds exp score value (keys ∪ tile) ref' where
  ref_eq := rfl
  sum_eq := by
    show s.sum * _ + _ = _
    rw [hs.sum_rescale h, mass_against h, ← mul_add]
    unfold mass
    rw [sum_union hdisj]
  acc_eq d := by
    show s.acc d * _ + _ = _
    rw [hs.acc_rescale h, weighted_against h, ← mul_add]
    unfold weighted
    rw [sum_union hdisj]

theorem Accum.Holds.div (h : ExpLaws exp) {ref : α} (hs : s.Holds exp score value keys ref) (d : δ) :
    s.acc d / s.sum = softmax exp score value keys d := by
  rw [hs.acc_eq, hs.sum_eq, mul_div_mul_left _ _ (h.pos _).ne', softmax]

/-- **The states of several segments**, against one reference. -/
theorem combine [DecidableEq κ] (h : ExpLaws exp) {segments : Finset ι} {seg : ι → Accum α δ}
    {part : ι → Finset κ}
    (hseg : ∀ i ∈ segments, ∃ ref, (seg i).Holds exp score value (part i) ref)
    (hdisj : (segments : Set ι).PairwiseDisjoint part) (ref : α) (d : δ) :
    (∑ i ∈ segments, (seg i).acc d * expBot exp (against (seg i).ref ref)) /
        ∑ i ∈ segments, (seg i).sum * expBot exp (against (seg i).ref ref) =
      softmax exp score value (segments.biUnion part) d := by
  have hacc : ∑ i ∈ segments, (seg i).acc d * expBot exp (against (seg i).ref ref) =
      exp (-ref) * weighted exp score value (segments.biUnion part) d := by
    unfold weighted
    rw [sum_biUnion hdisj, mul_sum]
    refine sum_congr rfl fun i hi => ?_
    obtain ⟨ref', hholds⟩ := hseg i hi
    exact hholds.acc_rescale h ref d
  have hsum : ∑ i ∈ segments, (seg i).sum * expBot exp (against (seg i).ref ref) =
      exp (-ref) * mass exp score (segments.biUnion part) := by
    unfold mass
    rw [sum_biUnion hdisj, mul_sum]
    refine sum_congr rfl fun i hi => ?_
    obtain ⟨ref', hholds⟩ := hseg i hi
    exact hholds.sum_rescale h ref
  rw [hacc, hsum, mul_div_mul_left _ _ (h.pos _).ne', softmax]

end Lib.OnlineSoftmax
