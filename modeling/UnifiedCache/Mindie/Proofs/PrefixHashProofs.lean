import UnifiedCache.Mindie.PrefixHash
import Mathlib.Data.Nat.Bitwise

/-!
# Proofs: the hashes of the plugin and of the extension

Modulo `2 ^ 64` both combine in the same way. They differ when the plugin's value is a multiple of
`2 ^ 64` but not 0: it becomes 0, the value for blocks without a hash, and the extension's becomes 1.
While no combination does this, the hashes of every prompt are the same.
-/

namespace UnifiedCache.Mindie

open PrefixCachePlugin

variable {tokens : List Nat} {blockSize n : Nat}

-- Comparing two seeds by unfolding would compute with `2 ^ 64`.
attribute [local irreducible] hashCombine UcHashExt.hashCombine

/-- The value of a combination wraps to 0, and is not 0 itself. -/
def Wraps (seed v : Nat) : Prop :=
  seed ^^^ combineSum seed v ≠ 0 ∧ (seed ^^^ combineSum seed v) % 2 ^ 64 = 0

instance (seed v : Nat) : Decidable (Wraps seed v) := inferInstanceAs (Decidable (_ ∧ _))

/-- None of the combinations with these values wraps to 0. -/
def NoWrap : Nat → List Nat → Prop
  | _, [] => True
  | seed, v :: values => ¬Wraps seed v ∧ NoWrap (hashCombine seed v) values

instance : ∀ seed values, Decidable (NoWrap seed values)
  | _, [] => isTrue trivial
  | seed, v :: values =>
    have : Decidable (NoWrap (hashCombine seed v) values) :=
      instDecidableNoWrap (hashCombine seed v) values
    inferInstanceAs (Decidable (¬Wraps seed v ∧ NoWrap (hashCombine seed v) values))

/-- What `hash_block` combines, in this order. -/
def combined (prefixHashValue : Nat) (block : List Nat) : List Nat :=
  (if prefixHashValue ≠ invalidHashValue then [prefixHashValue] else []) ++ block ++ [extraHash]

theorem hashBlock_eq_foldl (prefixHashValue : Nat) (block : List Nat) :
    hashBlock prefixHashValue block =
      (combined prefixHashValue block).foldl hashCombine invalidHashValue := by
  unfold hashBlock combined
  dsimp only
  rw [List.foldl_append, List.foldl_append]
  by_cases h : prefixHashValue ≠ invalidHashValue
  · rw [if_pos h, if_pos h, List.foldl_cons, List.foldl_nil, List.foldl_cons, List.foldl_nil]
  · rw [if_neg h, if_neg h, List.foldl_cons, List.foldl_nil, List.foldl_nil]

theorem hashBlock_ext_eq_foldl (prefixHash : UInt64) (block : List Nat) :
    UcHashExt.hashBlock prefixHash (block.map Int64.ofNat) =
      (combined prefixHash.toNat block).foldl
        (fun seed v => UcHashExt.hashCombine seed (UInt64.ofNat v)) 0 := by
  have hmask : ∀ v, UcHashExt.toU64Mask (Int64.ofNat v) = UInt64.ofNat v := fun _ => rfl
  have hextra : UInt64.ofNat extraHash = UcHashExt.extraHash := rfl
  have hne : prefixHash.toNat ≠ invalidHashValue ↔ prefixHash ≠ 0 := by
    rw [ne_eq, ne_eq, ← UInt64.toNat_inj]
    rfl
  unfold UcHashExt.hashBlock combined
  dsimp only
  rw [List.foldl_append, List.foldl_append, List.foldl_map]
  simp only [hmask]
  by_cases h : prefixHash ≠ 0
  · rw [if_pos h, if_pos (hne.mpr h), List.foldl_cons, List.foldl_nil, List.foldl_cons,
      List.foldl_nil, UInt64.ofNat_toNat, hextra]
  · rw [if_neg h, if_neg (mt hne.mp h), List.foldl_nil, List.foldl_cons, List.foldl_nil, hextra]

/-! ## One combination -/

theorem combine_toNat (seed v : UInt64) :
    (seed ^^^ (v + UcHashExt.const + (seed <<< 6) + (seed >>> 2))).toNat =
      (seed.toNat ^^^ combineSum seed.toNat v.toNat) % 2 ^ 64 := by
  have hseed := seed.toNat_lt
  unfold combineSum cppStyleHash
  rw [Nat.xor_mod_two_pow, Nat.mod_eq_of_lt hseed, UInt64.toNat_xor]
  congr 1
  have hleft : (seed <<< 6).toNat = (seed.toNat <<< 6) % 2 ^ 64 := UInt64.toNat_shiftLeft seed 6
  have hright : (seed >>> 2).toNat = seed.toNat >>> 2 := UInt64.toNat_shiftRight seed 2
  have hconst : UcHashExt.const.toNat = 0x9e3779b97f4a7c15 := rfl
  rw [UInt64.toNat_add, UInt64.toNat_add, UInt64.toNat_add, hleft, hright, hconst]
  omega

/-- **The two combinations agree if and only if the plugin's does not wrap to 0.** -/
theorem hashCombine_toNat_iff (seed v : UInt64) :
    (UcHashExt.hashCombine seed v).toNat = hashCombine seed.toNat v.toNat ↔
      ¬Wraps seed.toNat v.toNat := by
  have htoNat := combine_toNat seed v
  have hzero : seed ^^^ (v + UcHashExt.const + (seed <<< 6) + (seed >>> 2)) =
      UcHashExt.invalidHashValue ↔ (seed.toNat ^^^ combineSum seed.toNat v.toNat) % 2 ^ 64 = 0 := by
    rw [← UInt64.toNat_inj, htoNat]
    rfl
  unfold UcHashExt.hashCombine hashCombine Wraps
  dsimp only
  by_cases hwrap : (seed.toNat ^^^ combineSum seed.toNat v.toNat) % 2 ^ 64 = 0
  · rw [if_pos (hzero.mpr hwrap)]
    by_cases hnull : seed.toNat ^^^ combineSum seed.toNat v.toNat = invalidHashValue
    · rw [if_pos hnull]
      exact iff_of_true rfl fun h => h.1 hnull
    · rw [if_neg hnull, hwrap]
      exact iff_of_false (by decide) fun h => h ⟨hnull, rfl⟩
  · rw [if_neg (mt hzero.mp hwrap), htoNat]
    have hnull : seed.toNat ^^^ combineSum seed.toNat v.toNat ≠ invalidHashValue := by
      intro hnull
      exact hwrap (by rw [hnull]; rfl)
    rw [if_neg hnull]
    exact iff_of_true rfl fun h => hwrap h.2

theorem hashCombine_lt (seed v : Nat) : hashCombine seed v < 2 ^ 64 := by
  unfold hashCombine
  exact Nat.mod_lt _ (Nat.two_pow_pos 64)

/-! ## Blocks and prompts -/

theorem foldl_hashCombine {values : List Nat} (hvalues : ∀ v ∈ values, v < 2 ^ 64) :
    ∀ seed : UInt64, NoWrap seed.toNat values →
      (values.foldl (fun seed v => UcHashExt.hashCombine seed (UInt64.ofNat v)) seed).toNat =
        values.foldl hashCombine seed.toNat := by
  induction values with
  | nil =>
    intro seed _
    rfl
  | cons v values ih =>
    rintro seed ⟨hwrap, hrest⟩
    have hv : (UInt64.ofNat v).toNat = v :=
      UInt64.toNat_ofNat_of_lt' (hvalues v List.mem_cons_self)
    have hstep := hashCombine_toNat_iff seed (UInt64.ofNat v)
    rw [hv] at hstep
    have hstep := hstep.mpr hwrap
    rw [List.foldl_cons, List.foldl_cons, ← hstep]
    rw [← hstep] at hrest
    exact ih (fun w hw => hvalues w (List.mem_cons_of_mem _ hw)) _ hrest

theorem hashBlock_lt (prefixHashValue : Nat) (block : List Nat) :
    hashBlock prefixHashValue block < 2 ^ 64 := hashCombine_lt _ _

theorem prefixHash_lt (tokens : List Nat) (blockSize b : Nat) :
    prefixHash tokens blockSize b < 2 ^ 64 := by
  cases b with
  | zero => exact Nat.two_pow_pos 64
  | succ b => exact hashBlock_lt _ _

theorem blockTokens_map {α β : Type*} (f : α → β) (l : List α) (blockSize b : Nat) :
    blockTokens (l.map f) blockSize b = (blockTokens l blockSize b).map f := by
  unfold blockTokens
  rw [List.map_take, List.map_drop]

/-- Nothing that `hash_block` combines for the first `n` blocks wraps to 0. -/
def NoWrapBlocks (tokens : List Nat) (blockSize n : Nat) : Prop :=
  ∀ b < n, NoWrap invalidHashValue
    (combined (prefixHash tokens blockSize b) (blockTokens tokens blockSize b))

theorem hashBlock_toNat (htokens : ∀ t ∈ tokens, t < 2 ^ 63)
    (hwrap : NoWrapBlocks tokens blockSize n) {b : Nat} (hb : b < n) {prefixHashValue : UInt64}
    (hbefore : prefixHashValue.toNat = prefixHash tokens blockSize b) :
    (UcHashExt.hashBlock prefixHashValue
      (blockTokens (tokens.map Int64.ofNat) blockSize b)).toNat =
      prefixHash tokens blockSize (b + 1) := by
  have hvalues : ∀ v ∈ combined (prefixHash tokens blockSize b) (blockTokens tokens blockSize b),
      v < 2 ^ 64 := by
    intro v hv
    unfold combined at hv
    rw [List.mem_append, List.mem_append] at hv
    rcases hv with (hv | hv) | hv
    · split_ifs at hv
      · rw [List.mem_singleton.mp hv]
        exact prefixHash_lt tokens blockSize b
      · exact absurd hv List.not_mem_nil
    · have := htokens v (List.mem_of_mem_drop (List.mem_of_mem_take hv))
      omega
    · rw [List.mem_singleton.mp hv]
      exact Nat.two_pow_pos 64
  rw [blockTokens_map, hashBlock_ext_eq_foldl, hbefore]
  show _ = hashBlock _ _
  rw [hashBlock_eq_foldl]
  exact foldl_hashCombine hvalues 0 (hwrap b hb)

theorem hashPrefixLoop_eq (htokens : ∀ t ∈ tokens, t < 2 ^ 63)
    (hwrap : NoWrapBlocks tokens blockSize n) (k : Nat) :
    ∀ b (prefixHashValue : UInt64), b + k ≤ n →
      prefixHashValue.toNat = prefixHash tokens blockSize b →
      (UcHashExt.hashPrefixLoop (tokens.map Int64.ofNat) blockSize k b prefixHashValue).map
        UInt64.toNat = (List.range' b k).map fun b => prefixHash tokens blockSize (b + 1) := by
  induction k with
  | zero =>
    intro b prefixHashValue _ _
    rfl
  | succ k ih =>
    intro b prefixHashValue hb hbefore
    have hblock := hashBlock_toNat htokens hwrap (show b < n by omega) hbefore
    unfold UcHashExt.hashPrefixLoop
    rw [List.range'_succ, List.map_cons, List.map_cons, hblock]
    congr 1
    exact ih (b + 1) _ (by omega) hblock

/-- **The extension hashes as the plugin does**, on the blocks of a prompt and from any block on, when
nothing wraps to 0. -/
theorem hashPrefix_eq (htokens : ∀ t ∈ tokens, t < 2 ^ 63) (hblockSize : 1 ≤ blockSize)
    (hlength : n * blockSize ≤ tokens.length) (hwrap : NoWrapBlocks tokens blockSize n) :
    (∃ hashes, UcHashExt.hashPrefix invalidHashValue (tokens.map Int64.ofNat) blockSize 0 n =
        .ok hashes ∧ hashes.map UInt64.toNat = prefixHashes tokens blockSize n) ∧
    ∀ m ≤ n, ∃ hashes, UcHashExt.hashPrefix (prefixHash tokens blockSize m)
        (tokens.map Int64.ofNat) blockSize m n = .ok hashes ∧
      hashes.map UInt64.toNat = (prefixHashes tokens blockSize n).drop m := by
  have hfrom : ∀ m ≤ n, ∃ hashes, UcHashExt.hashPrefix (prefixHash tokens blockSize m)
        (tokens.map Int64.ofNat) blockSize m n = .ok hashes ∧
      hashes.map UInt64.toNat = (prefixHashes tokens blockSize n).drop m := by
    intro m hm
    refine ⟨UcHashExt.hashPrefixLoop (tokens.map Int64.ofNat) blockSize (n - m) m
      (UcHashExt.pyintToU64Mask (prefixHash tokens blockSize m)), ?_, ?_⟩
    · unfold UcHashExt.hashPrefix
      rw [if_neg (by omega), if_neg (by omega), List.length_map, if_neg (by omega)]
    · have hbefore : (UcHashExt.pyintToU64Mask (prefixHash tokens blockSize m)).toNat =
          prefixHash tokens blockSize m :=
        UInt64.toNat_ofNat_of_lt' (prefixHash_lt tokens blockSize m)
      rw [hashPrefixLoop_eq htokens hwrap (n - m) m _ (by omega) hbefore]
      unfold prefixHashes
      rw [← List.map_drop, List.range_eq_range', List.drop_range', Nat.zero_add, Nat.mul_one]
  refine ⟨?_, hfrom⟩
  have hall := hfrom 0 (Nat.zero_le n)
  rw [List.drop_zero] at hall
  exact hall

/-- Three blocks of two tokens. -/
theorem hashPrefix_eq_three :
    (∃ hashes, UcHashExt.hashPrefix invalidHashValue ([1, 2, 3, 4, 5, 6].map Int64.ofNat) 2 0 3 =
        .ok hashes ∧ hashes.map UInt64.toNat = prefixHashes [1, 2, 3, 4, 5, 6] 2 3) ∧
    ∀ m ≤ 3, ∃ hashes, UcHashExt.hashPrefix (prefixHash [1, 2, 3, 4, 5, 6] 2 m)
        ([1, 2, 3, 4, 5, 6].map Int64.ofNat) 2 m 3 = .ok hashes ∧
      hashes.map UInt64.toNat = (prefixHashes [1, 2, 3, 4, 5, 6] 2 3).drop m :=
  hashPrefix_eq (by decide) (by decide) (by decide)
    (by unfold NoWrapBlocks; decide +kernel)

/-- A token that makes the first sum `2 ^ 64`. -/
def wrappingToken : Nat := 0x61c8864680b583eb

/-- For the wrapping token alone the plugin's seed becomes 0 and the extension's 1. -/
theorem hashPrefix_ne_wrapping : wrappingToken < 2 ^ 63 ∧
    ∃ hashes, UcHashExt.hashPrefix invalidHashValue [Int64.ofNat wrappingToken] 1 0 1 = .ok hashes ∧
      hashes.map UInt64.toNat ≠ prefixHashes [wrappingToken] 1 1 :=
  ⟨by decide, UcHashExt.hashPrefixLoop [Int64.ofNat wrappingToken] 1 1 0 0, rfl,
    by decide +kernel⟩

end UnifiedCache.Mindie
