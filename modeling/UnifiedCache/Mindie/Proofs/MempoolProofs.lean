import UnifiedCache.Mindie.Mempool
import Mathlib.Data.List.FinRange

/-!
# Proofs: MLA blocks are shared by the ranks

A worker that only sees keys of its own rank remembers this rank (`tpRank_of_reach`), and rewrites the
keys to those of rank 0 (`getTpRank0HashKey_rank`). So `put` dumps the blocks at the places `rank`,
`rank + tp_size` and so on, which for all ranks together are all places.
-/

open Lib

namespace UnifiedCache.Mindie

variable {η τ : Type} {tpSize rank n : Nat} {tpRank : Int} {md5 : Str → η}

/-! ## Keys -/

theorem isDigit_of_mem_str {c : Char} (h : c ∈ str n) : c.isDigit = true :=
  Nat.isDigit_of_mem_toDigits (by decide) (by decide) h

theorem isDigit_ne {c d : Char} (hc : c.isDigit = true) (hd : d.isDigit = false) : c ≠ d := by
  rintro rfl
  rw [hc] at hd
  cases hd

theorem isWhitespace_of_isDigit {c : Char} (hc : c.isDigit = true) : c.isWhitespace = false := by
  have hne : ∀ d : Char, d.isDigit = false → (c == d) = false := by
    intro d hd
    exact beq_false_of_ne (isDigit_ne hc hd)
  simp only [Char.isWhitespace, Bool.or_eq_false_iff, decide_eq_false_iff_not]
  refine ⟨⟨⟨?_, ?_⟩, ?_⟩, ?_⟩
  all_goals exact isDigit_ne hc (by decide)

theorem strip_str (n : Nat) : strip (str n) = str n := by
  have hdrop : ∀ s : Str, (∀ c ∈ s, c.isDigit = true) → s.dropWhile Char.isWhitespace = s := by
    intro s hs
    cases s with
    | nil => rfl
    | cons c s =>
      exact List.dropWhile_cons_of_neg (by simp [isWhitespace_of_isDigit (hs c List.mem_cons_self)])
  have hstr : ∀ c ∈ str n, c.isDigit = true := fun c hc => isDigit_of_mem_str hc
  rw [strip, hdrop _ hstr, hdrop _ fun c hc => hstr c (List.mem_reverse.mp hc), List.reverse_reverse]

theorem int_str (n : Nat) : int (str n) = some (n : Int) := by
  have hdigits : digits (str n) = some n := by
    rw [digits, if_pos ⟨Nat.toDigits_ne_nil, List.all_eq_true.mpr fun c hc => isDigit_of_mem_str hc⟩]
    exact congrArg some Nat.ofDigitChars_ten_toDigits
  have hfirst : ∀ c s, str n = c :: s → c.isDigit = true := fun c s h =>
    isDigit_of_mem_str (n := n) (by rw [h]; exact List.mem_cons_self)
  rw [int, strip_str]
  split
  · next s h => exact absurd (hfirst _ _ h) (by decide)
  · next s h => exact absurd (hfirst _ _ h) (by decide)
  · rw [hdigits]
    rfl

theorem BlockName.splitOn_key (b : BlockName) (rank : Nat) :
    (b.key rank).splitOn '_' = b.first :: str rank :: b.parts := by
  refine List.splitOn_intercalate '_' ?_ (List.cons_ne_nil _ _)
  intro p hp
  rcases List.mem_cons.mp hp with rfl | hp
  · exact b.first_ok
  · rcases List.mem_cons.mp hp with rfl | hp
    · intro h
      exact absurd (isDigit_of_mem_str h) (by decide)
    · exact b.parts_ok p hp

theorem getTpRank0HashKeyLoop_rank (hrank : rank ≠ 0) (keys rank0Keys : List Str)
    (blocks : List BlockName) :
    Mempool.getTpRank0HashKeyLoop keys (blocks.map (·.key rank)) rank rank0Keys (some rank) =
      some ((rank : Int), rank0Keys ++ blocks.map (·.key 0), (rank : Int)) := by
  induction blocks generalizing rank0Keys with
  | nil => simp [Mempool.getTpRank0HashKeyLoop]
  | cons b blocks ih =>
    rw [List.map_cons, Mempool.getTpRank0HashKeyLoop, b.splitOn_key]
    dsimp only
    rw [int_str, Option.bind_some, if_neg (by omega), if_neg (by omega), ih]
    simp [BlockName.key, str]

theorem getTpRank0HashKey_rank {blocks : List BlockName} (hblocks : blocks ≠ [])
    (htpRank : tpRank = -1 ∨ tpRank = rank) :
    Mempool.getTpRank0HashKey tpRank (blocks.map (·.key rank)) =
      some ((rank : Int), blocks.map (·.key 0), (rank : Int)) := by
  obtain ⟨b, blocks, rfl⟩ := List.exists_cons_of_ne_nil hblocks
  have hremember : (if tpRank < 0 then (rank : Int) else tpRank) = rank := by
    rcases htpRank with rfl | rfl
    · rfl
    · exact if_neg (by omega)
  rw [Mempool.getTpRank0HashKey, List.map_cons, Mempool.getTpRank0HashKeyLoop, b.splitOn_key]
  dsimp only
  rw [int_str, Option.bind_some, hremember]
  by_cases hrank : rank = 0
  · subst hrank
    rfl
  · rw [if_neg (by omega), getTpRank0HashKeyLoop_rank hrank]
    simp [BlockName.key, str]

/-! ## Workers -/

theorem tpRank_of_reach (h : (worker τ (.mla tpSize) md5 rank).Reachable tpRank) :
    tpRank = -1 ∨ tpRank = rank := by
  refine h.inv (I := fun s : Int => s = -1 ∨ s = rank) (fun _ h => .inl h) ?_
  intro s e s' hs _ hstep
  right
  -- The new rank is that of the keys, without which there is no step.
  have hkeys : ∀ blocks : List BlockName, ∀ x,
      Mempool.getTpRank0HashKey s (blocks.map (·.key rank)) = some x → x.1 = rank := by
    intro blocks x hx
    by_cases hblocks : blocks = []
    · subst hblocks
      cases hx
    · rw [getTpRank0HashKey_rank hblocks hs] at hx
      cases hx
      rfl
  cases e with
  | exists_ blocks lookup | get blocks tensors done =>
    obtain ⟨y, hy, rfl⟩ := Option.map_eq_some_iff.mp hstep
    obtain ⟨x, hx, rfl⟩ := Option.map_eq_some_iff.mp hy
    exact hkeys blocks x hx
  | put blocks tensors done =>
    obtain ⟨y, hy, rfl⟩ := Option.map_eq_some_iff.mp hstep
    obtain ⟨x, hx, hput⟩ := Option.bind_eq_some_iff.mp hy
    dsimp only at hput
    split_ifs at hput
    all_goals
      cases hput
      exact hkeys blocks x hx

section Calls

variable {blocks : Fin n → BlockName} {tensors : Fin n → List (List τ)} {done : Bool}

theorem rankKeys_eq (blocks : Fin n → BlockName) (rank : Nat) :
    rankKeys blocks rank = (List.ofFn blocks).map (·.key rank) := by
  rw [List.map_ofFn]
  rfl

theorem storeCall_places (places : List (Fin n)) :
    Mempool.storeCall md5 (places.map fun i => (blocks i).key 0) (places.map tensors) =
      rank0Call md5 blocks tensors places := by
  simp [Mempool.storeCall, Mempool.getTensorsForStore, rank0Call, Function.comp_def,
    List.map_const']

theorem getTpRank0HashKey_rankKeys (hn : 0 < n) (htpRank : tpRank = -1 ∨ tpRank = rank) :
    Mempool.getTpRank0HashKey tpRank (rankKeys blocks rank) =
      some ((rank : Int), (List.finRange n).map fun i => (blocks i).key 0, (rank : Int)) := by
  have hne : List.ofFn blocks ≠ [] := by
    intro h
    have := congrArg List.length h
    simp only [List.length_ofFn, List.length_nil] at this
    omega
  rw [rankKeys_eq, getTpRank0HashKey_rank hne htpRank, List.map_ofFn, List.ofFn_eq_map]
  rfl

theorem put_rank (hn : 0 < n) (htp : 0 < tpSize) (htpRank : tpRank = -1 ∨ tpRank = rank) :
    (Mempool.mla tpSize).put md5 tpRank (rankKeys blocks rank) (List.ofFn tensors) done =
      let places := stride tpSize rank (List.finRange n)
      some ((rank : Int), if places = [] then none else some (rank0Call md5 blocks tensors places),
        if places = [] ∨ done = true then ok else error) := by
  have hslice : ∀ {α : Type} (l : List α),
      sliceFrom (rank : Int) (Mempool.mla tpSize).tpSize l = stride tpSize rank l := by
    intro α l
    rw [sliceFrom, if_neg (by omega), Int.toNat_natCast]
    rfl
  show (Mempool.getTpRank0HashKey tpRank (rankKeys blocks rank)).bind _ = _
  rw [getTpRank0HashKey_rankKeys hn htpRank, Option.bind_some]
  refine (if_neg (show ¬tpSize = 0 by omega)).trans ?_
  rw [hslice, hslice, stride_map, List.ofFn_eq_map, stride_map]
  dsimp only
  rw [storeCall_places]
  simp only [List.map_eq_nil_iff]
  by_cases hplaces : stride tpSize rank (List.finRange n) = []
  · rw [if_pos hplaces, if_pos hplaces, if_pos (.inl hplaces)]
  · rw [if_neg hplaces, if_neg hplaces]
    simp only [hplaces, false_or]

theorem get_rank (hn : 0 < n) (htpRank : tpRank = -1 ∨ tpRank = rank) :
    (Mempool.mla tpSize).get md5 tpRank (rankKeys blocks rank) (List.ofFn tensors) done =
      some ((rank : Int), some (rank0Call md5 blocks tensors (List.finRange n)),
        if done then ok else error) := by
  show (Mempool.getTpRank0HashKey tpRank (rankKeys blocks rank)).map _ = _
  rw [getTpRank0HashKey_rankKeys hn htpRank, Option.map_some, List.ofFn_eq_map]
  dsimp only
  rw [storeCall_places]

theorem stride_blockMajorKeys (htp : 0 < tpSize) (blocks : Fin n → BlockName) :
    stride tpSize 0 (blockMajorKeys blocks tpSize) =
      (List.finRange n).map fun i => (blocks i).key 0 := by
  obtain ⟨m, rfl⟩ : ∃ m, tpSize = m + 1 := ⟨tpSize - 1, by omega⟩
  unfold blockMajorKeys
  simp only [List.range_succ_eq_map, List.map_cons]
  exact stride_rows (fun i : Fin n => (blocks i).key 0) _ (by simp) _

theorem length_blockMajorKeys (blocks : Fin n → BlockName) :
    (blockMajorKeys blocks tpSize).length = n * tpSize := by
  simp [blockMajorKeys, List.length_flatMap]

theorem batchExist_eq (hn : 0 < n) (htp : 0 < tpSize) {lookupOnPrefix : List η → Option Int}
    {foundIdx : Int} (h : lookupOnPrefix (List.ofFn fun i => md5 ((blocks i).key 0)) = some foundIdx) :
    (Mempool.mla tpSize).batchExist md5 lookupOnPrefix (blockMajorKeys blocks tpSize) =
      some ((List.finRange n).flatMap fun i : Fin n =>
        List.replicate tpSize (decide ((i.val : Int) ≤ foundIdx))) := by
  have hpos : n * tpSize ≠ 0 := Nat.ne_of_gt (Nat.mul_pos hn htp)
  have hmod : ¬(tpSize = 0 ∨ n * tpSize % tpSize ≠ 0) := by
    rw [Nat.mul_mod_left]
    omega
  unfold Mempool.batchExist
  dsimp only
  rw [length_blockMajorKeys]
  refine (if_neg hpos).trans ((if_neg Bool.false_ne_true).trans ((if_pos rfl).trans
    ((if_neg hmod).trans ?_)))
  have hkeys : (stride (Mempool.mla tpSize).tpSize 0 (blockMajorKeys blocks tpSize)).map md5 =
      List.ofFn fun i => md5 ((blocks i).key 0) := by
    show (stride tpSize 0 _).map md5 = _
    rw [stride_blockMajorKeys htp, List.map_map, List.ofFn_eq_map]
    rfl
  have hlength : (stride (Mempool.mla tpSize).tpSize 0 (blockMajorKeys blocks tpSize)).length = n := by
    rw [← List.length_map md5, hkeys, List.length_ofFn]
  rw [hkeys, h, hlength]
  simp only [Int.lt_add_one_iff]
  rw [← List.map_coe_finRange_eq_range, List.flatMap_map]
  rfl

end Calls

/-- **MLA blocks are shared by the ranks.** Whatever the workers were called with before: the puts of
all ranks together dump the block of every place exactly once, under its key for rank 0 and with the
tensors at that place; a get on any rank loads every block under that key into the tensors at its
place; and `batch_exist` answers for every block, on every rank, whether all blocks up to it are
present. -/
theorem mla_blocks_shared (md5 : Str → η) (hn : 0 < n) (htp : 0 < tpSize) (blocks : Fin n → BlockName)
    (tensors : Fin tpSize → Fin n → List (List τ)) (tpRanks : Fin tpSize → Int)
    (hranks : ∀ r : Fin tpSize, (worker τ (.mla tpSize) md5 r).Reachable (tpRanks r)) :
    (∃ places : Fin tpSize → List (Fin n),
      ((List.finRange tpSize).flatMap places).Perm (List.finRange n) ∧
      ∀ r done, ∃ code, (Mempool.mla tpSize).put md5 (tpRanks r) (rankKeys blocks r)
        (List.ofFn (tensors r)) done = some ((r : Int), if places r = [] then none
          else some (rank0Call md5 blocks (tensors r) (places r)), code)) ∧
    (∀ r done, ∃ code, (Mempool.mla tpSize).get md5 (tpRanks r) (rankKeys blocks r)
      (List.ofFn (tensors r)) done =
        some ((r : Int), some (rank0Call md5 blocks (tensors r) (List.finRange n)), code)) ∧
    (∀ lookupOnPrefix foundIdx,
      lookupOnPrefix (List.ofFn fun i => md5 ((blocks i).key 0)) = some foundIdx →
      (Mempool.mla tpSize).batchExist md5 lookupOnPrefix (blockMajorKeys blocks tpSize) =
        some ((List.finRange n).flatMap fun i : Fin n =>
          List.replicate tpSize (decide ((i.val : Int) ≤ foundIdx)))) ∧
    ∀ present : η → Bool, (Mempool.mla tpSize).batchExist md5
      (fun hashes => some (prefixEnd present hashes)) (blockMajorKeys blocks tpSize) =
        some ((List.finRange n).flatMap fun i =>
          List.replicate tpSize (decide (∀ j ≤ i, present (md5 ((blocks j).key 0)) = true))) := by
  refine ⟨⟨fun r => stride tpSize r (List.finRange n), ?_, fun r done => ?_⟩,
    fun r done => ?_, fun _ _ h => batchExist_eq hn htp h, fun present => ?_⟩
  · rw [← List.flatMap_map (f := Fin.val) (g := fun r => stride tpSize r (List.finRange n)),
      List.map_coe_finRange_eq_range]
    exact flatMap_stride_perm htp _
  · exact ⟨_, put_rank hn htp (tpRank_of_reach (hranks r))⟩
  · exact ⟨_, get_rank hn (tpRank_of_reach (hranks r))⟩
  · rw [batchExist_eq hn htp rfl]
    congr 2
    funext i
    congr 1
    have hlt : (i : Nat) < (List.ofFn fun i => md5 ((blocks i).key 0)).length := by
      rw [List.length_ofFn]
      exact i.isLt
    rw [decide_eq_decide, le_prefixEnd_iff hlt]
    constructor
    · intro h j hj
      exact h j hj _ (by rw [List.getElem?_ofFn]; simp)
    · intro h j hj x hx
      rw [List.getElem?_ofFn] at hx
      split_ifs at hx with hjn
      cases hx
      exact h ⟨j, hjn⟩ hj

theorem twoBlocks_first_ok : '_' ∉ ['k'] := by decide

theorem twoBlocks_parts_ok (i : Nat) : ∀ p ∈ (if i = 0 then [['x']] else [['y']]), '_' ∉ p := by
  split_ifs
  · decide
  · decide

/-- Two blocks, `k_rank_x` and `k_rank_y`. -/
def twoBlocks (i : Fin 2) : BlockName where
  first := ['k']
  parts := if i.val = 0 then [['x']] else [['y']]
  first_ok := twoBlocks_first_ok
  parts_ok := twoBlocks_parts_ok i.val

/-- Two blocks on three ranks: each is dumped by one of them. -/
theorem mla_blocks_shared_two : ∃ places : Fin 3 → List (Fin 2),
    ((List.finRange 3).flatMap places).Perm (List.finRange 2) ∧
    ∀ (r : Fin 3) done, ∃ code, (Mempool.mla 3).put id (-1) (rankKeys twoBlocks r)
      (List.ofFn fun i : Fin 2 => [[i.val], [7]]) done = some ((r.val : Int), if places r = [] then none
        else some (rank0Call id twoBlocks (fun i => [[i.val], [7]]) (places r)), code) :=
  (mla_blocks_shared (τ := Nat) (n := 2) id Nat.two_pos (Nat.succ_pos 2) twoBlocks
    (fun _ i => [[i.val], [7]]) (fun _ => -1) fun _ => .init rfl).1

end UnifiedCache.Mindie
