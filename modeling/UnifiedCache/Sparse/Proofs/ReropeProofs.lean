import UnifiedCache.Sparse.Rerope
import UnifiedCache.Sparse.Proofs.AttentionKernelsProofs
import Mathlib.Analysis.SpecialFunctions.Log.Basic
import Mathlib.Analysis.SpecialFunctions.Trigonometric.Basic
import Mathlib.Tactic.IntervalCases

/-!
# Attention by distances

The queries of a batch and the cached keys come from `process_qkv`. Then the attention depends on the
distances of the keys only, and on no distance beyond the window.
-/

open Finset Lib
open Lib.OnlineSoftmax (ExpLaws)

namespace UnifiedCache.Sparse.Rerope

open UnifiedAttention (Batch Tensor Segments)
open UnifiedAttention.Batch

variable {α : Type} [Field α] [LinearOrder α] {env : Env α} {batch : Batch α} {tokens : Tokens α}
  {out : Tensor α} {exp : α → α} {rows i t head n : Nat} {cos sin : Nat → Nat → α}
  {nextPowerOf2 : Nat → Nat}

/-- The queries and the cached keys of the batch come from `process_qkv`. -/
structure Fed (env : Env α) (batch : Batch α) (tokens : Tokens α) : Prop where
  use : env.vllmUseRerope = true
  window : batch.reropeWindow = env.reropeWindow
  query : ∀ i < batch.sequsedK.length, ∀ t, batch.cuSeqlensQ i ≤ t → t < batch.cuSeqlensQ (i + 1) →
    ∀ head < batch.numQueryHeads, ∀ d < batch.q.size 2,
      batch.q.get [t, head, d] = (processed env batch tokens i (batch.position i t) head).query d ∧
      some (batch.q2.get [t, head, d]) =
        (processed env batch tokens i (batch.position i t) head).query2.map (· d)
  key : ∀ i < batch.sequsedK.length, ∀ n < batch.seqLen i, ∀ head < batch.numQueryHeads,
    ∀ d < batch.q.size 2,
      batch.k.get (batch.keyIndex i head n d) = (processed env batch tokens i n head).key d ∧
      some (batch.k2.get (batch.keyIndex i head n d)) =
        (processed env batch tokens i n head).key2.map (· d)

/-- `self.rotary_emb` turns the halves of a vector by the angles of a table. -/
structure Turns (env : Env α) (headSize rows : Nat) (cos sin : Nat → Nat → α) : Prop where
  even : headSize / 2 + headSize / 2 = headSize
  turn : ∀ p x, ∀ d < headSize, env.rotaryEmb p x d = Rotary.rotate (headSize / 2) (cos p) (sin p) x d
  angles : Rotary.AngleAddition (headSize / 2) rows cos sin
  unit : ∀ p < rows, ∀ j < headSize / 2, cos p j * cos p j + sin p j * sin p j = 1

/-- **Only the distance counts**, up to the window. -/
theorem logit_eq (hfed : Fed env batch tokens) (hturn : Turns env (batch.q.size 2) rows cos sin)
    (hrows : batch.seqLen i ≤ rows) (wf : batch.WellFormed out) (hq : batch.Query i t head)
    (hn : n ≤ batch.position i t) :
    batch.logit exp i t head n = relativeLogit env batch tokens exp i t head n := by
  have hposition := hq.position_lt wf
  have hquery := hfed.query i hq.seq_lt t hq.start_le hq.lt_stop head hq.head_lt
  have hkey := hfed.key i hq.seq_lt n (Nat.lt_of_le_of_lt hn hposition) head hq.head_lt
  simp only [processed, processQkv, hfed.use, if_true, Option.map_some, Option.some.injEq] at hquery hkey
  have hnear : decide ((batch.position i t : Int) + 1 - n < batch.reropeWindow) =
      decide (batch.position i t + 1 - n < env.reropeWindow) := by
    rw [hfed.window]
    apply decide_eq_decide.mpr
    omega
  unfold logit relativeLogit distance
  simp only [hnear]
  congr 2
  by_cases hdist : batch.position i t + 1 - n < env.reropeWindow
  · rw [if_pos hdist, decide_eq_true hdist, if_pos rfl]
    have hsum := hturn.angles.sum_rotate_mul
      (x := fun d => tokens.q i (batch.position i t) head d *
        max (env.log (batch.position i t + 1) / env.log env.trainingLength) 1)
      (y := tokens.k i n (head / batch.numQueriesPerKv))
      (hturn.unit n (by omega)) (show n + (batch.position i t - n) < rows by omega)
    rw [Nat.add_sub_cancel' hn, hturn.even] at hsum
    refine Eq.trans (sum_congr rfl fun d hd => ?_) (hsum.trans (sum_congr rfl fun d hd => ?_))
    · have hd := mem_range.mp hd
      rw [(hquery d hd).1, (hkey d hd).1, hturn.turn _ _ d hd, hturn.turn _ _ d hd]
    · rw [hturn.turn _ _ d (mem_range.mp hd)]
  · rw [if_neg hdist, decide_eq_false hdist, if_neg Bool.false_ne_true]
    refine sum_congr rfl fun d hd => ?_
    rw [(hquery d (mem_range.mp hd)).2, (hkey d (mem_range.mp hd)).2, Nat.mul_zero, Nat.zero_add]

/-- A head of two dimensions, that turns by one radian for each position. -/
noncomputable def radian : Env ℝ where
  vllmUseRerope := true
  reropeWindow := 1
  trainingLength := 4
  log := fun n => Real.log n
  rotaryEmb := fun p => Rotary.rotate 1 (fun _ => Real.cos p) fun _ => Real.sin p

/-- Tokens that are all alike. -/
def alike : Tokens ℝ := ⟨fun _ _ _ _ => 1, fun _ _ _ _ => 1⟩

/-- Two tokens of one sequence, in one block. -/
noncomputable def pair : Batch ℝ where
  q := ⟨fun a => (processQkv radian true (a / 2) (fun _ => 1) fun _ => 1).query (a % 2), [2, 1, 2], [2, 2, 1]⟩
  k := ⟨fun a => radian.rotaryEmb (a / 2) (fun _ => 1) (a % 2), [1, 2, 1, 2], [4, 2, 2, 1]⟩
  q2 := ⟨fun a => radian.rotaryEmb 1
    (fun _ => 1 * max (radian.log (a / 2 + 1) / radian.log 4) 1) (a % 2), [2, 1, 2], [2, 2, 1]⟩
  k2 := ⟨fun _ => 1, [1, 2, 1, 2], [4, 2, 2, 1]⟩
  v := ⟨fun a => a, [1, 2, 1, 2], [4, 2, 2, 1]⟩
  cuSeqlensQ := fun i => [0, 2].getD i 0
  maxSeqlenQ := 2
  sequsedK := [2]
  softmaxScale := 1
  causal := true
  reropeWindow := 1
  windowSize := (-1, -1)
  blockTable := ⟨fun _ => 0, [1, 1], [1, 1]⟩
  softcap := 0
  alibiSlopes := none

/-- The output of the two tokens. -/
def pairOut : Tensor ℝ := ⟨fun _ => 0, [2, 1, 2], [2, 2, 1]⟩

theorem pair_wellFormed : pair.WellFormed pairOut := by
  constructor <;> decide

theorem pair_fed : Fed radian pair alike where
  use := rfl
  window := rfl
  query i hi t _ hlt head hhead d hd := by
    have hi : i < 1 := hi
    have hhead : head < 1 := hhead
    have hd : d < 2 := hd
    obtain rfl : i = 0 := by omega
    obtain rfl : head = 0 := by omega
    have hlt : t < 2 := hlt
    interval_cases t <;> interval_cases d <;> exact ⟨rfl, rfl⟩
  key i hi n hn head hhead d hd := by
    have hi : i < 1 := hi
    have hhead : head < 1 := hhead
    have hd : d < 2 := hd
    obtain rfl : i = 0 := by omega
    obtain rfl : head = 0 := by omega
    have hn : n < 2 := hn
    interval_cases n <;> interval_cases d <;> exact ⟨rfl, rfl⟩

theorem radian_turns (rows : Nat) :
    Turns radian 2 rows (fun p _ => Real.cos p) fun p _ => Real.sin p where
  even := rfl
  turn _ _ _ _ := rfl
  angles :=
    { cos_add := fun p d _ _ _ => by rw [Nat.cast_add, Real.cos_add]
      sin_add := fun p d _ _ _ => by rw [Nat.cast_add, Real.sin_add] }
  unit p _ _ _ := by rw [← sq, ← sq, Real.cos_sq_add_sin_sq]

end UnifiedCache.Sparse.Rerope
