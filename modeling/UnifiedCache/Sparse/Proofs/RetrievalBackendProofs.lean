import UnifiedCache.Sparse.RetrievalBackend
import Mathlib.Data.List.GetD
import Mathlib.Order.Lattice.Nat

/-!
# Proofs: what the retrieval backends return

Every request is in one place: with its `submit`, in the queue, with a worker, or over; and it is over
when its `done` is set. So its result is stored once, and what a fetch finds was made from that request.
The rows of a result are the first elements of the sorted heaps; a fetch cuts all of them to the length of
the first one.
-/

open Function Lib Lib.PartialSort

namespace UnifiedCache.Sparse.RetrievalBackend

/-! ## Hamming distances -/

theorem popcount_le (w x : Nat) : popcount w x ≤ w := by
  unfold popcount
  exact List.countP_le_length.trans_eq List.length_range

theorem popcount_add {m b : Nat} (hb : b < 2 ^ m) (w a : Nat) :
    popcount (m + w) (b + 2 ^ m * a) = popcount m b + popcount w a := by
  unfold popcount
  rw [List.range_add, List.countP_append, List.countP_map]
  congr 1
  · apply List.countP_congr
    intro i hi
    rw [Nat.add_comm, Nat.testBit_two_pow_mul_add a hb, if_pos (List.mem_range.mp hi)]
  · apply List.countP_congr
    intro i _
    show (b + 2 ^ m * a).testBit (m + i) = true ↔ _
    rw [Nat.add_comm b, Nat.testBit_two_pow_mul_add a hb, if_neg (by omega), Nat.add_sub_cancel_left]

theorem popcount_zero (w : Nat) : popcount w 0 = 0 := by
  unfold popcount
  rw [List.countP_eq_zero]
  intro i _
  rw [Nat.zero_testBit]
  exact Bool.false_ne_true

theorem popcount_byte (x : BitVec 8) (w : Nat) : popcount (8 + w) x.toNat = popcount 8 x.toNat := by
  have hadd := popcount_add x.isLt w 0
  rwa [Nat.mul_zero, Nat.add_zero, popcount_zero, Nat.add_zero] at hadd

theorem popcount_bytes (l : List (BitVec 8)) :
    popcount (8 * l.length) (l.foldr (fun x acc => x.toNat + 2 ^ 8 * acc) 0) =
      (l.map fun x => popcount 8 x.toNat).sum := by
  induction l with
  | nil => rfl
  | cons x l ih =>
    rw [List.length_cons, List.foldr_cons, List.map_cons, List.sum_cons, Nat.mul_succ, Nat.add_comm,
      popcount_add x.isLt, ih]

theorem popcount_word (x : Nat → BitVec 8) :
    popcount 64 (word x) = ((List.range 8).map fun i => popcount 8 (x i).toNat).sum := by
  have hbytes := popcount_bytes ((List.range 8).map x)
  rw [List.foldr_map, List.map_map, List.length_map, List.length_range] at hbytes
  exact hbytes

theorem foldl_add_mod {M : Nat} (f : Nat → Nat) (l : List Nat) (s : Nat)
    (h : s + (l.map f).sum < M) : l.foldl (fun s i => (s + f i) % M) s = s + (l.map f).sum := by
  induction l generalizing s with
  | nil => rfl
  | cons i l ih =>
    rw [List.map_cons, List.sum_cons] at h ⊢
    rw [List.foldl_cons, Nat.mod_eq_of_lt (by omega), ih _ (by omega), Nat.add_assoc]

theorem sum_popcount_le (x : Nat → BitVec 8) (n : Nat) :
    ((List.range n).map fun i => popcount 8 (x i).toNat).sum ≤ 8 * n := by
  induction n with
  | zero => exact Nat.le_refl 0
  | succ n ih =>
    have hlast := popcount_le 8 (x n).toNat
    rw [List.range_succ, List.map_append, List.sum_append, List.map_singleton, List.sum_singleton]
    omega

/-- The Hamming distance of two vectors of bytes. -/
def hamming (dim : Nat) (q key : Nat → BitVec 8) : Nat :=
  ((List.range dim).map fun d => popcount 8 (q d ^^^ key d).toNat).sum

theorem hamming_le (dim : Nat) (q key : Nat → BitVec 8) : hamming dim q key ≤ 8 * dim :=
  sum_popcount_le (fun d => q d ^^^ key d) dim

theorem hamming_add (m n : Nat) (q key : Nat → BitVec 8) :
    hamming (m + n) q key = hamming m q key + hamming n (fun i => q (m + i)) fun i => key (m + i) := by
  unfold hamming
  rw [List.range_add, List.map_append, List.sum_append, List.map_map]
  rfl

/-- **Sixteen bytes at once**, however they are counted. -/
theorem vecPopcntXorSum16_eq (isa : Isa) (a b : Nat → BitVec 8) :
    vecPopcntXorSum16 isa a b = hamming 16 a b := by
  have hbyte : hamming 16 a b < 2 ^ 8 := (hamming_le 16 a b).trans_lt (by decide)
  have hhalf : hamming 16 a b < 2 ^ 16 := hbyte.trans (by decide)
  cases isa with
  | aarch64 => exact Nat.mod_eq_of_lt hbyte
  | arm => exact Nat.mod_eq_of_lt hhalf
  | x86 =>
    have hsplit := hamming_add 8 8 a b
    unfold vecPopcntXorSum16
    dsimp only
    rw [popcount_word, popcount_word]
    exact (congrArg (· % 2 ^ 16) hsplit.symm).trans (Nat.mod_eq_of_lt hhalf)
  | other =>
    have hle := hamming_le 16 a b
    have hbyte : ∀ i, popcount 32 (a i ^^^ b i).toNat = popcount 8 (a i ^^^ b i).toNat := fun i =>
      popcount_byte _ 24
    unfold vecPopcntXorSum16 hamming at *
    simp only [hbyte]
    rw [foldl_add_mod _ _ 0 (by omega), Nat.zero_add]

/-- **The sum for one token** is its distance, the vector part and the tail together. -/
theorem tokenSum_eq (isa : Isa) (dim : Nat) (q key : Nat → BitVec 8) :
    tokenSum isa dim q key = hamming dim q key := by
  have hvec : ∀ n, ((List.range n).map fun v => vecPopcntXorSum16 isa (fun i => q (v * vecSize + i))
      fun i => key (v * vecSize + i)).sum = hamming (n * vecSize) q key := by
    intro n
    induction n with
    | zero => rfl
    | succ n ih =>
      rw [List.range_succ, List.map_append, List.sum_append, ih, Nat.succ_mul, hamming_add,
        List.map_singleton, List.sum_singleton, vecPopcntXorSum16_eq]
      rfl
  have hbyte : ∀ x : BitVec 8, popcount 32 x.toNat = popcount 8 x.toNat := fun x => popcount_byte x 24
  unfold tokenSum
  dsimp only
  simp only [hvec, hbyte]
  have hsplit := hamming_add (dim / vecSize * vecSize) (dim % vecSize) q key
  rw [Nat.div_add_mod'] at hsplit
  rw [hsplit]
  rfl

theorem tokenLoop_eq (score : Nat) (sums : List Nat) : tokenLoop score sums = sums.foldl min score := by
  induction sums generalizing score with
  | nil => rfl
  | cons sum sums ih =>
    rw [tokenLoop, List.foldl_cons]
    split_ifs with hlt hzero
    · have hmin : ∀ l : List Nat, l.foldl min 0 = 0 := by
        intro l
        induction l with
        | nil => rfl
        | cons x l ih => rw [List.foldl_cons, Nat.zero_min, ih]
      rw [hzero, Nat.min_zero, hmin]
    · rw [ih, Nat.min_eq_right hlt.le]
    · rw [ih, Nat.min_eq_left (Nat.le_of_not_lt hlt)]

/-- The bytes of a token of a block. -/
def token (blockSize dim : Nat) (data : List (BitVec 8)) (idx : Int) (t d : Nat) : BitVec 8 :=
  data.getD (idx.toNat * blockSize * dim + t * dim + d) 0

/-- The distance to the nearest token of a block. -/
noncomputable def nearest (blockSize dim : Nat) (data : List (BitVec 8)) (q : Nat → BitVec 8)
    (idx : Int) : Nat :=
  sInf {d | ∃ t < blockSize, d = hamming dim q (token blockSize dim data idx t)}

theorem foldl_min_mem (l : List Nat) (s : Nat) : l.foldl min s = s ∨ l.foldl min s ∈ l := by
  induction l generalizing s with
  | nil => exact .inl rfl
  | cons x l ih =>
    rw [List.foldl_cons]
    rcases ih (min s x) with heq | hmem
    · rw [heq]
      rcases Nat.le_total s x with hle | hle
      · exact .inl (Nat.min_eq_left hle)
      · rw [Nat.min_eq_right hle]
        exact .inr List.mem_cons_self
    · exact .inr (List.mem_cons_of_mem _ hmem)

theorem foldl_min_le (l : List Nat) (s : Nat) : l.foldl min s ≤ s ∧ ∀ x ∈ l, l.foldl min s ≤ x := by
  induction l generalizing s with
  | nil => exact ⟨Nat.le_refl s, fun _ hx => absurd hx List.not_mem_nil⟩
  | cons y l ih =>
    obtain ⟨hs, hl⟩ := ih (min s y)
    rw [List.foldl_cons]
    refine ⟨hs.trans (Nat.min_le_left s y), fun x hx => ?_⟩
    rcases List.mem_cons.mp hx with rfl | hx
    · exact hs.trans (Nat.min_le_right s x)
    · exact hl x hx

/-- **The score of a block** is the distance to its nearest token. -/
theorem hashRetrieval_score (isa : Isa) {blockSize dim : Nat} (data : List (BitVec 8))
    (hblock : 0 < blockSize) (hdim : dim < 8192) (q : Nat → BitVec 8) (idx : Int) :
    (hashRetrieval isa blockSize dim data).score q idx = nearest blockSize dim data q idx := by
  have hscore : (hashRetrieval isa blockSize dim data).score q idx =
      ((List.range blockSize).map fun t => hamming dim q (token blockSize dim data idx t)).foldl min
        uint16Max := by
    unfold hashRetrieval
    dsimp only
    rw [tokenLoop_eq]
    simp only [tokenSum_eq]
    rfl
  rw [hscore]
  set sums := (List.range blockSize).map fun t => hamming dim q (token blockSize dim data idx t)
    with hsums
  obtain ⟨-, hleast⟩ := foldl_min_le sums uint16Max
  have hmem : sums.foldl min uint16Max ∈ sums := by
    rcases foldl_min_mem sums uint16Max with heq | hmem
    · -- no distance is as large as the first score
      have hfirst : hamming dim q (token blockSize dim data idx 0) ∈ sums :=
        List.mem_map.mpr ⟨0, List.mem_range.mpr hblock, rfl⟩
      have hle := hleast _ hfirst
      have hbound := hamming_le dim q (token blockSize dim data idx 0)
      have hmax : uint16Max = 65535 := rfl
      omega
    · exact hmem
  obtain ⟨t, ht, heq⟩ := List.mem_map.mp hmem
  apply Nat.le_antisymm
  · apply le_csInf
    · exact ⟨_, t, List.mem_range.mp ht, rfl⟩
    · rintro d ⟨t', ht', rfl⟩
      exact hleast _ (List.mem_map.mpr ⟨t', List.mem_range.mpr ht', rfl⟩)
  · exact Nat.sInf_le ⟨t, List.mem_range.mp ht, heq.symm⟩

/-! ## Inner products -/

/-- The inner product of two vectors. -/
def innerProduct (dim : Nat) (q key : Nat → ℚ) : ℚ := ((List.range dim).map fun d => q d * key d).sum

theorem foldl_add_map (f : Nat → ℚ) (l : List Nat) (x : ℚ) :
    l.foldl (fun score d => score + f d) x = x + (l.map f).sum := by
  induction l generalizing x with
  | nil => rw [List.foldl_nil, List.map_nil, List.sum_nil, add_zero]
  | cons d l ih => rw [List.foldl_cons, ih, List.map_cons, List.sum_cons, add_assoc]

theorem retrieval_score (dim : Nat) (data : List ℚ) (q : Nat → ℚ) (idx : Int) :
    (retrieval dim data).score q idx =
      innerProduct dim q fun d => data.getD (idx.toNat * dim + d) 0 := by
  unfold retrieval innerProduct
  dsimp only
  rw [foldl_add_map fun d => q d * data.getD (idx.toNat * dim + d) 0, zero_add]

/-! ## Rows -/

variable {δ β γ : Type} [Inhabited δ] [LinearOrder γ]

/-- The best of the allowed indices, in order; smaller is better. -/
structure Best (f : Int → γ) (allowed : List Int) (topk : Nat) (sel : List Int) : Prop where
  length : sel.length = min allowed.length topk
  nodup : sel.Nodup
  subset : ∀ i ∈ sel, i ∈ allowed
  best : ∀ i ∈ sel, ∀ j ∈ allowed, j ∉ sel → f i ≤ f j
  sorted : sel.Pairwise fun i j => f i ≤ f j

theorem best_iff {f : Int → γ} {allowed sorted : List Int} {topk : Nat}
    (h : PartialSorted (byKey f) allowed (min allowed.length topk) sorted) :
    Best f allowed topk (sorted.take (min allowed.length topk)) ↔
      (sorted.take (min allowed.length topk)).Nodup := by
  refine ⟨Best.nodup, fun hnodup => ⟨?_, hnodup, ?_, ?_, ?_⟩⟩
  · rw [h.length_take, Nat.min_assoc, Nat.min_comm topk, ← Nat.min_assoc, Nat.min_self]
  · exact fun i hi => h.perm.mem_iff.mp (List.mem_of_mem_take hi)
  · intro i hi j hj hnot
    have hj := h.perm.mem_iff.mpr hj
    rw [← List.take_append_drop (min allowed.length topk) sorted, List.mem_append] at hj
    exact byKey_eq_false.mp (h.best i hi j (hj.resolve_left hnot))
  · exact h.sorted.imp fun hij => byKey_eq_false.mp hij

/-- One row of what is fetched: the best indices with their scores, and nothing else. -/
def RowOk (rank : β → γ) (score : Int → β) (allowed : List Int) (topk : Nat)
    (indices : List (Option Int)) (scores : List (Option β)) : Prop :=
  ∃ sel, Best (rank ∘ score) allowed topk sel ∧ indices = sel.map some ∧
    scores = sel.map fun i => some (score i)

/-- What is fetched for a request. -/
structure FetchedOk (rank : β → γ) (score : Nat → Int → β) (r : Request δ) (x : Fetched β) : Prop where
  indices : x.indices.length = r.batch
  scores : x.scores.length = r.batch
  row : ∀ b < r.batch,
    RowOk rank (score b) (r.allowed b) r.topk (x.indices.getD b []) (x.scores.getD b [])

/-- All rows have as many results as the first one, and an index that occurs twice in a row cannot be
among its results twice. -/
structure Rectangular (rank : β → γ) (score : Nat → Int → β) (r : Request δ) : Prop where
  uniform : ∀ b < r.batch, r.currTopk b = r.currTopk 0
  spread : ∀ b < r.batch, Spread (rank ∘ score b) (r.allowed b) (r.currTopk b)

section Sorted

variable {k : Kernel δ β} {rank : β → γ} {r : Request δ} {heaps : List (List (β × Int))} {b : Nat}

/-- The scores of row `b`. -/
def Request.scores (r : Request δ) (k : Kernel δ β) (b : Nat) (i : Int) : β := k.score (r.row k b) i

theorem length_copyRow {α : Type} (l : List α) (n : Nat) : (copyRow l n).length = n := by
  unfold copyRow
  rw [List.length_map, List.length_range]

theorem copyRow_length {α : Type} (l : List α) : copyRow l l.length = l.map some := by
  refine List.ext_getElem? fun i => ?_
  unfold copyRow
  rw [List.getElem?_map, List.getElem?_map]
  by_cases hi : i < l.length
  · rw [List.getElem?_range hi, List.getElem?_eq_getElem hi, Option.map_some, Option.map_some,
      List.getElem?_eq_getElem hi]
  · rw [List.getElem?_eq_none (by rw [List.length_range]; omega), List.getElem?_eq_none (by omega)]
    rfl

theorem getD_map_range {α : Type} (f : Nat → List α) {n : Nat} (hb : b < n) :
    ((List.range n).map f).getD b [] = f b := by
  rw [List.getD_eq_getElem _ _ (by rwa [List.length_map, List.length_range]), List.getElem_map,
    List.getElem_range]

theorem Request.Sorted.indices (hbefore : ∀ x y, k.before x y = byKey rank x y)
    (h : r.Sorted k heaps) (hb : b < r.batch) :
    PartialSorted (byKey (rank ∘ r.scores k b)) (r.allowed b) (r.currTopk b)
      ((heaps.getD b []).map Prod.snd) := by
  have hid : (r.heap k b).map Prod.snd = r.allowed b := by
    unfold Request.heap
    rw [List.map_map]
    exact List.map_id _
  rw [← hid]
  refine (h.2 b hb).map fun x hx y hy hxy => ?_
  obtain ⟨i, -, rfl⟩ := List.mem_map.mp hx
  obtain ⟨j, -, rfl⟩ := List.mem_map.mp hy
  rwa [hbefore] at hxy

theorem Request.Sorted.score (h : r.Sorted k heaps) (hb : b < r.batch) {x : β × Int}
    (hx : x ∈ heaps.getD b []) : x.1 = r.scores k b x.2 := by
  obtain ⟨i, -, rfl⟩ := List.mem_map.mp ((h.2 b hb).perm.mem_iff.mp hx)
  rfl

/-- The indices that are selected for row `b`. -/
def Request.selected (r : Request δ) (heaps : List (List (β × Int))) (b : Nat) : List Int :=
  ((heaps.getD b []).map Prod.snd).take (r.currTopk b)

theorem length_selected (h : r.Sorted k heaps) (hb : b < r.batch) :
    (r.selected heaps b).length = r.currTopk b := by
  have hlen := (h.2 b hb).length_take
  have hheap : (r.heap k b).length = (r.allowed b).length := List.length_map _
  have hle : r.currTopk b ≤ (r.allowed b).length := Nat.min_le_left _ _
  unfold Request.selected
  rw [← List.map_take, List.length_map, hlen, hheap, Nat.min_eq_left hle]

omit [Inhabited δ] [LinearOrder γ] in
theorem result_indices (hb : b < r.batch) :
    (r.result heaps).indices.getD b [] = r.selected heaps b := by
  unfold Request.result Request.selected
  dsimp only
  rw [getD_map_range _ hb, List.map_take]

omit [LinearOrder γ] in
theorem result_scores (h : r.Sorted k heaps) (hb : b < r.batch) :
    (r.result heaps).scores.getD b [] = (r.selected heaps b).map (r.scores k b) := by
  unfold Request.result Request.selected
  dsimp only
  rw [getD_map_range _ hb, ← List.map_take, List.map_map]
  refine List.map_congr_left fun x hx => ?_
  exact h.score hb (List.mem_of_mem_take hx)

theorem fetch_indices (h : r.Sorted k heaps) (hb : b < r.batch) :
    (r.result heaps).fetch.indices.getD b [] = copyRow (r.selected heaps b) (r.currTopk 0) := by
  have hlen : (r.result heaps).indices.length = r.batch := by
    unfold Request.result
    rw [List.length_map, List.length_range]
  unfold Result.fetch
  dsimp only
  rw [hlen, getD_map_range _ hb, result_indices hb, result_indices (by omega),
    length_selected h (by omega)]

theorem fetch_scores (h : r.Sorted k heaps) (hb : b < r.batch) :
    (r.result heaps).fetch.scores.getD b [] =
      copyRow ((r.selected heaps b).map (r.scores k b)) (r.currTopk 0) := by
  have hlen : (r.result heaps).indices.length = r.batch := by
    unfold Request.result
    rw [List.length_map, List.length_range]
  unfold Result.fetch
  dsimp only
  rw [hlen, getD_map_range _ hb, result_scores h hb, result_indices (by omega),
    length_selected h (by omega)]

theorem copyRow_selected (h : r.Sorted k heaps) (hb : b < r.batch)
    (huniform : r.currTopk b = r.currTopk 0) :
    copyRow (r.selected heaps b) (r.currTopk 0) = (r.selected heaps b).map some := by
  rw [← huniform, ← length_selected h hb, copyRow_length]

/-- **What is fetched for a request** is right if the rows are equally long and have no index twice. -/
theorem fetchedOk_iff (hbefore : ∀ x y, k.before x y = byKey rank x y) (h : r.Sorted k heaps) :
    FetchedOk rank (r.scores k) r (r.result heaps).fetch ↔
      ∀ b < r.batch, r.currTopk b = r.currTopk 0 ∧ (r.selected heaps b).Nodup := by
  constructor
  · intro hok b hb
    obtain ⟨sel, hbest, hindices, -⟩ := hok.row b hb
    rw [fetch_indices h hb] at hindices
    have huniform : r.currTopk b = r.currTopk 0 := by
      have hlen := congrArg List.length hindices
      rw [length_copyRow, List.length_map, hbest.length] at hlen
      exact hlen.symm
    rw [copyRow_selected h hb huniform] at hindices
    have heq := List.map_injective_iff.mpr (Option.some_injective _) hindices
    rw [heq]
    exact ⟨huniform, hbest.nodup⟩
  · intro hrows
    refine ⟨?_, ?_, fun b hb => ⟨r.selected heaps b, ?_, ?_, ?_⟩⟩
    · unfold Result.fetch Request.result
      simp only [List.length_map, List.length_range]
    · unfold Result.fetch Request.result
      simp only [List.length_map, List.length_range]
    · exact (best_iff (h.indices hbefore hb)).mpr (hrows b hb).2
    · rw [fetch_indices h hb, copyRow_selected h hb (hrows b hb).1]
    · rw [fetch_scores h hb, ← (hrows b hb).1, ← length_selected h hb,
        ← List.length_map (r.scores k b), copyRow_length, List.map_map]
      rfl

theorem exists_heaps (hbefore : ∀ x y, k.before x y = byKey rank x y) (sorted : Nat → List Int)
    (h : ∀ b < r.batch, PartialSorted (byKey (rank ∘ r.scores k b)) (r.allowed b) (r.currTopk b)
      (sorted b)) :
    ∃ heaps, r.Sorted k heaps ∧
      ∀ b < r.batch, r.selected heaps b = (sorted b).take (r.currTopk b) := by
  refine ⟨(List.range r.batch).map fun b => (sorted b).map fun i => (r.scores k b i, i), ⟨?_, ?_⟩, ?_⟩
  · rw [List.length_map, List.length_range]
  · intro b hb
    rw [getD_map_range _ hb]
    refine (h b hb).map fun x _ y _ hxy => ?_
    rw [hbefore]
    exact hxy
  · intro b hb
    unfold Request.selected
    rw [getD_map_range _ hb, List.map_map]
    exact congrArg _ (List.map_id _)

/-- **Every result is right if and only if the request is rectangular.** -/
theorem forall_fetchedOk_iff (hbefore : ∀ x y, k.before x y = byKey rank x y) :
    (∀ heaps, r.Sorted k heaps → FetchedOk rank (r.scores k) r (r.result heaps).fetch) ↔
      Rectangular rank (r.scores k) r := by
  constructor
  · intro hok
    choose sorted hsorted using fun b =>
      exists_partialSorted (rank ∘ r.scores k b) (r.allowed b) (r.currTopk b)
    refine ⟨fun b hb => ?_, fun b hb => ?_⟩
    · obtain ⟨heaps, hheaps, -⟩ := exists_heaps hbefore sorted fun b _ => hsorted b
      exact ((fetchedOk_iff hbefore hheaps).mp (hok heaps hheaps) b hb).1
    · -- the heap of the row with the repeated index is sorted so that it comes twice
      by_contra hspread
      obtain ⟨twice, htwice, hnot⟩ := exists_not_nodup_take hspread (Nat.min_le_left _ _)
      obtain ⟨heaps, hheaps, hselected⟩ := exists_heaps hbefore (update sorted b twice)
        fun b' _ => by
          by_cases heq : b' = b
          · rw [heq, update_self]
            exact htwice
          · rw [update_of_ne heq]
            exact hsorted b'
      have hnodup := ((fetchedOk_iff hbefore hheaps).mp (hok heaps hheaps) b hb).2
      rw [hselected b hb, update_self] at hnodup
      exact hnot hnodup
  · intro hrect heaps hheaps
    refine (fetchedOk_iff hbefore hheaps).mpr fun b hb => ⟨hrect.uniform b hb, ?_⟩
    exact (hheaps.indices hbefore hb).nodup_take (hrect.spread b hb)

end Sorted

end UnifiedCache.Sparse.RetrievalBackend
