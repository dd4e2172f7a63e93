import UnifiedCache.Lib.Rotary
import UnifiedCache.Sparse.BlockwiseRope

/-!
# The kernel and the loops rotate alike

A program of the kernel owns one head of one token of one listed block, and so does a pass of the
innermost loop. The programs are independent if no block is listed twice; then the kernel and the loops
leave the same cache, and every head of a listed block is rotated once.
-/

open Function Lib

namespace UnifiedCache.Sparse.BlockwiseRope

variable {K : Type} [CommRing K]

/-! ## Addresses -/

namespace CacheShape

variable {shape : CacheShape} {b s h j : Nat}

theorem address_eq (shape : CacheShape) (b s h j : Nat) :
    shape.address b s h j =
      ((b * shape.seqLen + s) * shape.nKvHead + h) * shape.headDim + j := by
  simp only [address, dims, Strides.contiguous, Strides.offset, List.prod_cons, List.prod_nil]
  ring

theorem address_add (shape : CacheShape) (b s h j : Nat) :
    shape.address b s h 0 + j = shape.address b s h j := by
  rw [address_eq, address_eq, Nat.add_zero]

theorem address_inj {b' s' h' j' : Nat} (hs : s < shape.seqLen) (hs' : s' < shape.seqLen)
    (hh : h < shape.nKvHead) (hh' : h' < shape.nKvHead) (hj : j < shape.headDim)
    (hj' : j' < shape.headDim) (heq : shape.address b s h j = shape.address b' s' h' j') :
    b = b' ∧ s = s' ∧ h = h' ∧ j = j' := by
  rw [address_eq, address_eq] at heq
  obtain ⟨hrow, rfl⟩ := Strides.mul_add_inj hj hj' heq
  obtain ⟨htoken, rfl⟩ := Strides.mul_add_inj hh hh' hrow
  obtain ⟨rfl, rfl⟩ := Strides.mul_add_inj hs hs' htoken
  exact ⟨rfl, rfl, rfl, rfl⟩

end CacheShape

theorem stride_dims (shape : CacheShape) :
    stride shape.dims 0 = shape.seqLen * (shape.nKvHead * shape.headDim) := by
  simp [stride, CacheShape.dims, Strides.contiguous]

theorem stride_table (rows hd : Nat) : stride [1, rows, hd] 1 = hd := by
  simp [stride, Strides.contiguous]

/-! ## One program -/

section Program

variable {n half ptr a : Nat} {mem : Nat → K} {tile : Fin n → K}

theorem load_apply (hn : half ≤ n) {j : Nat} (hj : j < half) :
    load mem ptr (fun offs : Fin n => decide ((offs : Nat) < half)) ⟨j, Nat.lt_of_lt_of_le hj hn⟩ =
      mem (ptr + j) := if_pos (decide_eq_true hj)

omit [CommRing K] in
theorem store_add (hn : half ≤ n) {j : Nat} (hj : j < half) :
    store mem ptr tile (fun offs : Fin n => decide ((offs : Nat) < half)) (ptr + j) =
      tile ⟨j, Nat.lt_of_lt_of_le hj hn⟩ := by
  have hsub : ptr + j - ptr = j := Nat.add_sub_cancel_left ptr j
  have hin : ptr ≤ ptr + j ∧ ptr + j - ptr < n := by omega
  unfold store
  rw [dif_pos hin]
  simp only [hsub]
  exact if_pos (decide_eq_true hj)

omit [CommRing K] in
theorem store_of_notMem (h : ¬ (ptr ≤ a ∧ a < ptr + half)) :
    store mem ptr tile (fun offs : Fin n => decide ((offs : Nat) < half)) a = mem a := by
  unfold store
  split
  · rename_i hin
    have hmask : ¬ a - ptr < half := by omega
    exact if_neg (by simpa using hmask)
  · rfl

end Program

section Kernel

variable {vllmIds positions : Nat → Nat} {cosSinCache : Nat → K} {mem : Nat → K}
  {kRowStride cosSinRowStride sl nKh hd padHd pid a : Nat}

/-- `k_ptr`, with the offset of a program. -/
def headPtr (vllmIds : Nat → Nat) (kRowStride sl nKh hd pid : Nat) : Nat :=
  vllmIds (pid / (sl * nKh)) * kRowStride + pid % (sl * nKh) / nKh * (nKh * hd) +
    pid % (sl * nKh) % nKh * hd

/-- The head of a program. -/
def Owns (vllmIds : Nat → Nat) (kRowStride sl nKh hd pid a : Nat) : Prop :=
  headPtr vllmIds kRowStride sl nKh hd pid ≤ a ∧
    a < headPtr vllmIds kRowStride sl nKh hd pid + (hd / 2 + hd / 2)

theorem kernel_frame (h : ¬ Owns vllmIds kRowStride sl nKh hd pid a) :
    kernel vllmIds positions cosSinCache kRowStride cosSinRowStride sl nKh hd padHd pid mem a = mem a := by
  unfold Owns headPtr at h
  unfold kernel
  rw [store_of_notMem (by omega), store_of_notMem (by omega)]

theorem kernel_add (hpad : hd / 2 ≤ padHd / 2) {j : Nat} (hj : j < hd / 2 + hd / 2) :
    kernel vllmIds positions cosSinCache kRowStride cosSinRowStride sl nKh hd padHd pid mem
        (headPtr vllmIds kRowStride sl nKh hd pid + j) =
      Rotary.rotate (hd / 2)
        (fun j => cosSinCache (positions (pid / (sl * nKh)) * cosSinRowStride + j))
        (fun j => cosSinCache (positions (pid / (sl * nKh)) * cosSinRowStride + hd / 2 + j))
        (fun j => mem (headPtr vllmIds kRowStride sl nKh hd pid + j)) j := by
  unfold kernel
  change store (store mem (headPtr vllmIds kRowStride sl nKh hd pid) _ _)
    (headPtr vllmIds kRowStride sl nKh hd pid + hd / 2) _ _ _ = _
  rcases Nat.lt_or_ge j (hd / 2) with hlt | hge
  · rw [store_of_notMem (by omega), store_add hpad hlt, Rotary.rotate_of_lt hlt]
    simp only [Pi.sub_apply, Pi.mul_apply, load_apply hpad hlt, headPtr, Nat.add_assoc]
  · obtain ⟨i, rfl⟩ := Nat.exists_eq_add_of_le hge
    have hi : i < hd / 2 := Nat.lt_of_add_lt_add_left hj
    rw [← Nat.add_assoc, store_add hpad hi, Rotary.rotate_of_le hge]
    simp only [Pi.add_apply, Pi.mul_apply, load_apply hpad hi, headPtr, Nat.add_assoc,
      Nat.add_sub_cancel_left]

theorem kernel_local (hpad : hd / 2 ≤ padHd / 2) :
    Programs.Local (kernel vllmIds positions cosSinCache kRowStride cosSinRowStride sl nKh hd padHd)
      (Owns vllmIds kRowStride sl nKh hd) where
  frame _ _ _ h := kernel_frame h
  congr pid mem mem' h a := by
    rintro ⟨hle, hlt⟩
    obtain ⟨j, rfl⟩ := Nat.exists_eq_add_of_le hle
    have hj : j < hd / 2 + hd / 2 := Nat.lt_of_add_lt_add_left hlt
    rw [kernel_add hpad hj, kernel_add hpad hj]
    refine Rotary.rotate_congr (fun _ _ => rfl) (fun _ _ => rfl) (fun i hi => ?_) hj
    exact h _ ⟨Nat.le_add_right _ i, Nat.add_lt_add_left hi _⟩

end Kernel

/-! ## All programs -/

section Forward

variable {shape : CacheShape} {vllmIds positions order : List Nat} {nextPowerOf2 : Nat → Nat}
  {cosSinCache kCache : Nat → K} {rows : Nat}

/-- The number of a program, from block, token and head. -/
def pidOf (shape : CacheShape) (i s h : Nat) : Nat := (i * shape.seqLen + s) * shape.nKvHead + h

theorem pidOf_lt {i s h : Nat} (hi : i < vllmIds.length) (hs : s < shape.seqLen)
    (hh : h < shape.nKvHead) : pidOf shape i s h < nRow shape vllmIds :=
  Strides.mul_add_lt (Strides.mul_add_lt hi hs) hh

theorem exists_pidOf {pid : Nat} (h : pid < nRow shape vllmIds) :
    ∃ i < vllmIds.length, ∃ s < shape.seqLen, ∃ k < shape.nKvHead, pid = pidOf shape i s k := by
  obtain ⟨row, hrow, k, hk, rfl⟩ := Strides.exists_mul_add h
  obtain ⟨i, hi, s, hs, rfl⟩ := Strides.exists_mul_add hrow
  exact ⟨i, hi, s, hs, k, hk, rfl⟩

theorem headPtr_pidOf {i s h : Nat} (hs : s < shape.seqLen) (hh : h < shape.nKvHead)
    (ids : Nat → Nat) :
    headPtr ids (stride shape.dims 0) shape.seqLen shape.nKvHead shape.headDim (pidOf shape i s h) =
      shape.address (ids i) s h 0 := by
  have hpid : pidOf shape i s h = i * (shape.seqLen * shape.nKvHead) + (s * shape.nKvHead + h) := by
    unfold pidOf
    ring
  have hlt : s * shape.nKvHead + h < shape.seqLen * shape.nKvHead := Strides.mul_add_lt hs hh
  unfold headPtr
  rw [stride_dims, CacheShape.address_eq, hpid, Strides.mul_add_div_of_lt hlt, Nat.mul_add_mod',
    Nat.mod_eq_of_lt hlt, Strides.mul_add_div_of_lt hh, Nat.mul_add_mod', Nat.mod_eq_of_lt hh]
  ring

theorem pidOf_div {i s h : Nat} (hs : s < shape.seqLen) (hh : h < shape.nKvHead) :
    pidOf shape i s h / (shape.seqLen * shape.nKvHead) = i := by
  have hpid : pidOf shape i s h = i * (shape.seqLen * shape.nKvHead) + (s * shape.nKvHead + h) := by
    unfold pidOf
    ring
  rw [hpid, Strides.mul_add_div_of_lt (Strides.mul_add_lt hs hh)]

theorem owns_pidOf (heven : shape.headDim / 2 + shape.headDim / 2 = shape.headDim) {i s h a : Nat}
    (hs : s < shape.seqLen) (hh : h < shape.nKvHead) (ids : Nat → Nat) :
    Owns ids (stride shape.dims 0) shape.seqLen shape.nKvHead shape.headDim (pidOf shape i s h) a ↔
      ∃ j < shape.headDim, a = shape.address (ids i) s h j := by
  unfold Owns
  rw [headPtr_pidOf hs hh, heven]
  constructor
  · rintro ⟨hle, hlt⟩
    obtain ⟨j, rfl⟩ := Nat.exists_eq_add_of_le hle
    exact ⟨j, Nat.lt_of_add_lt_add_left hlt, CacheShape.address_add shape _ s h j⟩
  · rintro ⟨j, hj, rfl⟩
    have haddr := CacheShape.address_add shape (ids i) s h j
    omega

/-- **No element has two programs.** -/
theorem owns_disjoint (heven : shape.headDim / 2 + shape.headDim / 2 = shape.headDim)
    (hnodup : vllmIds.Nodup) (hperm : order.Perm (List.range (nRow shape vllmIds))) :
    Programs.Disjoint (Owns (fun b => vllmIds.getD b 0) (stride shape.dims 0) shape.seqLen
      shape.nKvHead shape.headDim) order := by
  apply Programs.disjoint_of_unique (hperm.nodup_iff.mpr List.nodup_range)
  intro pid hpid pid' hpid' a hown hown'
  obtain ⟨i, hi, s, hs, h, hh, rfl⟩ := exists_pidOf (List.mem_range.mp (hperm.subset hpid))
  obtain ⟨i', hi', s', hs', h', hh', rfl⟩ := exists_pidOf (List.mem_range.mp (hperm.subset hpid'))
  obtain ⟨j, hj, rfl⟩ := (owns_pidOf heven hs hh _).mp hown
  obtain ⟨j', hj', heq⟩ := (owns_pidOf heven hs' hh' _).mp hown'
  obtain ⟨hid, rfl, rfl, -⟩ := CacheShape.address_inj hs hs' hh hh' hj hj' heq
  have hii : i = i' := by
    rw [← List.getElem_eq_getD (h := hi), ← List.getElem_eq_getD (h := hi')] at hid
    exact (List.Nodup.getElem_inj_iff hnodup).mp hid
  rw [hii]

/-- **A listed block** is turned by the angles of its position. -/
theorem forward_listed (hnext : ∀ n, n ≤ nextPowerOf2 n)
    (heven : shape.headDim / 2 + shape.headDim / 2 = shape.headDim) (hnodup : vllmIds.Nodup)
    (hperm : order.Perm (List.range (nRow shape vllmIds))) {i b pos s h j : Nat}
    (hi : i < vllmIds.length) (hb : vllmIds[i] = b) (hpos : positions.getD i 0 = pos)
    (hs : s < shape.seqLen) (hh : h < shape.nKvHead) (hj : j < shape.headDim) :
    blockWiseRopeForward nextPowerOf2 shape rows cosSinCache vllmIds positions order kCache
        (shape.address b s h j) =
      Rotary.rotate (shape.headDim / 2) (cosTable shape.headDim cosSinCache pos)
        (sinTable shape.headDim cosSinCache pos) (fun j => kCache (shape.address b s h j)) j := by
  subst hb hpos
  have hpad : shape.headDim / 2 ≤ nextPowerOf2 shape.headDim / 2 := Nat.div_le_div_right (hnext _)
  have hmem : pidOf shape i s h ∈ order :=
    hperm.symm.subset (List.mem_range.mpr (pidOf_lt hi hs hh))
  have hid : vllmIds.getD i 0 = vllmIds[i] := (List.getElem_eq_getD 0).symm
  have hown := (owns_pidOf heven hs hh fun b => vllmIds.getD b 0).mpr
    ⟨j, hj, congrArg (shape.address · s h j) hid.symm⟩
  have haddr : shape.address vllmIds[i] s h j =
      headPtr (fun b => vllmIds.getD b 0) (stride shape.dims 0) shape.seqLen shape.nKvHead
        shape.headDim (pidOf shape i s h) + j := by
    rw [headPtr_pidOf hs hh, CacheShape.address_add, hid]
  unfold blockWiseRopeForward
  rw [Programs.run_of_owned (kernel_local hpad) (owns_disjoint heven hnodup hperm) kCache hmem hown]
  rw [haddr, kernel_add hpad (heven.symm ▸ hj), pidOf_div hs hh, stride_table]
  simp only [headPtr_pidOf hs hh, CacheShape.address_add, hid]
  rfl

/-- **A block that is not listed** stays. -/
theorem forward_unlisted (hnext : ∀ n, n ≤ nextPowerOf2 n)
    (heven : shape.headDim / 2 + shape.headDim / 2 = shape.headDim)
    (hperm : order.Perm (List.range (nRow shape vllmIds))) {b s h j : Nat} (hb : b ∉ vllmIds)
    (hs : s < shape.seqLen) (hh : h < shape.nKvHead) (hj : j < shape.headDim) :
    blockWiseRopeForward nextPowerOf2 shape rows cosSinCache vllmIds positions order kCache
        (shape.address b s h j) = kCache (shape.address b s h j) := by
  apply Programs.run_of_unowned (kernel_local (Nat.div_le_div_right (hnext _)))
  intro pid hpid hown
  obtain ⟨i, hi, s', hs', h', hh', rfl⟩ := exists_pidOf (List.mem_range.mp (hperm.subset hpid))
  obtain ⟨j', hj', heq⟩ := (owns_pidOf heven hs' hh' _).mp hown
  obtain ⟨hid, -⟩ := CacheShape.address_inj hs hs' hh hh' hj hj' heq
  rw [← List.getElem_eq_getD (h := hi)] at hid
  exact hb (hid ▸ List.getElem_mem hi)

end Forward

/-! ## The loops -/

section Naive

variable {shape : CacheShape} {rows half : Nat} {kCache : Cache shape K} {row : List K}
  {blk : Fin shape.totalBlocks} {s : Fin shape.seqLen}

/-- A pass of the innermost loop. -/
def headPass (half : Nat) (row : List K) (blk : Fin shape.totalBlocks) (s : Fin shape.seqLen)
    (h : Fin shape.nKvHead) (kOut : Cache shape K) : Cache shape K :=
  update kOut (blk, s, h) (rotateVec half row (kOut (blk, s, h)))

theorem headPass_local :
    Programs.Local (headPass half row blk s) fun h a => a = (blk, s, h) where
  frame _ _ _ h := update_of_ne h _ _
  congr h mem mem' hmem a := by
    rintro rfl
    unfold headPass
    rw [update_self, update_self, hmem _ rfl]

theorem headPass_disjoint :
    Programs.Disjoint (fun h a => a = (blk, s, h)) (List.finRange shape.nKvHead) := by
  apply Programs.disjoint_of_unique (List.nodup_finRange _)
  rintro h - h' - a rfl heq
  simpa using heq

/-- A pass of the loop over the tokens. -/
def tokenPass (half : Nat) (row : List K) (blk : Fin shape.totalBlocks) (s : Fin shape.seqLen) :
    Cache shape K → Cache shape K :=
  Programs.run (headPass half row blk s) (List.finRange shape.nKvHead)

/-- What a pass of the loop over the tokens owns. -/
def OwnsToken (blk : Fin shape.totalBlocks) (s : Fin shape.seqLen)
    (a : Fin shape.totalBlocks × Fin shape.seqLen × Fin shape.nKvHead) : Prop :=
  ∃ h ∈ List.finRange shape.nKvHead, a = (blk, s, h)

theorem tokenPass_local : Programs.Local (tokenPass half row blk) (OwnsToken blk) :=
  Programs.Local.nested (fun _ => headPass_local) fun _ => headPass_disjoint

theorem tokenPass_disjoint : Programs.Disjoint (OwnsToken blk) (List.finRange shape.seqLen) := by
  apply Programs.disjoint_of_unique (List.nodup_finRange _)
  rintro s - s' - a ⟨h, -, rfl⟩ ⟨h', -, heq⟩
  rw [Prod.mk.injEq, Prod.mk.injEq] at heq
  exact heq.2.1

/-- A pass of the outer loop. -/
def blockPass (half : Nat) (row : List K) (blk : Fin shape.totalBlocks) :
    Cache shape K → Cache shape K :=
  Programs.run (tokenPass half row blk) (List.finRange shape.seqLen)

/-- What a pass of the outer loop owns. -/
def OwnsBlock (blk : Fin shape.totalBlocks)
    (a : Fin shape.totalBlocks × Fin shape.seqLen × Fin shape.nKvHead) : Prop :=
  ∃ s ∈ List.finRange shape.seqLen, OwnsToken blk s a

theorem ownsBlock_iff {x : Fin shape.totalBlocks} {h : Fin shape.nKvHead} :
    OwnsBlock blk (x, s, h) ↔ blk = x := by
  constructor
  · rintro ⟨s', -, h', -, heq⟩
    rw [Prod.mk.injEq] at heq
    exact heq.1.symm
  · rintro rfl
    exact ⟨s, List.mem_finRange s, h, List.mem_finRange h, rfl⟩

theorem blockPass_local {ι : Type*} (row : ι → List K) (blk : ι → Fin shape.totalBlocks) :
    Programs.Local (fun i => blockPass half (row i) (blk i)) fun i => OwnsBlock (blk i) :=
  Programs.Local.nested (fun _ => tokenPass_local) fun _ => tokenPass_disjoint

theorem blockPass_apply (kOut : Cache shape K) (s : Fin shape.seqLen) (h : Fin shape.nKvHead) :
    blockPass half row blk kOut (blk, s, h) = rotateVec half row (kOut (blk, s, h)) := by
  have hhead : h ∈ List.finRange shape.nKvHead := List.mem_finRange h
  unfold blockPass
  rw [Programs.run_of_owned tokenPass_local tokenPass_disjoint kOut (List.mem_finRange s)
    ⟨h, hhead, rfl⟩]
  unfold tokenPass
  rw [Programs.run_of_owned headPass_local headPass_disjoint kOut hhead rfl]
  exact update_self _ _ _

variable {vllmIds positions : List Nat} {cosSinCache : Fin rows → List K}

theorem ropeNaiveTorch_eq (hids : ∀ id ∈ vllmIds, id < shape.totalBlocks)
    (hlen : vllmIds.length = positions.length) (hpos : ∀ p ∈ positions, p < rows)
    (kCache : Cache shape K) :
    ropeNaiveTorch kCache vllmIds positions cosSinCache =
      some (Programs.run (fun b : Fin vllmIds.length =>
        blockPass (shape.headDim / 2)
          (cosSinCache ⟨positions[b], hpos _ (List.getElem_mem (hlen ▸ b.isLt))⟩)
          ⟨vllmIds[b], hids _ (List.getElem_mem b.isLt)⟩) (List.finRange vllmIds.length) kCache) := by
  apply Programs.foldlM_eq_run
  intro b _ mem
  have hb : (b : Nat) < positions.length := hlen ▸ b.isLt
  have hp : positions[b]? = some positions[b] := List.getElem?_eq_getElem hb
  have hrow : index rows positions[b] = some ⟨positions[b], hpos _ (List.getElem_mem hb)⟩ := dif_pos _
  have hblk : index shape.totalBlocks vllmIds[b] =
    some ⟨vllmIds[b], hids _ (List.getElem_mem b.isLt)⟩ := dif_pos _
  simp only [hp, Option.bind_eq_bind, Option.bind_some]
  apply Programs.foldlM_eq_run
  intro s _ mem
  simp only [hrow, Option.bind_some]
  apply Programs.foldlM_eq_run
  intro h _ mem
  simp only [hblk, Option.bind_some]
  rfl

end Naive

/-! ## Both -/

section Both

theorem rotateVec_map (half : Nat) (row x : Nat → K) :
    rotateVec half ((List.range (half + half)).map row) ((List.range (half + half)).map x) =
      (List.range (half + half)).map (Rotary.rotate half row (fun j => row (half + j)) x) := by
  apply List.ext_getElem
  · simp [rotateVec]
  · intro j hj _
    have hlt : j < half + half := by simpa [rotateVec] using hj
    rcases Nat.lt_or_ge j half with hfirst | hsecond
    · simp [rotateVec, Rotary.rotate, hfirst]
    · have hnot : ¬ j < half := Nat.not_lt.mpr hsecond
      have hback : half + (j - half) = j := Nat.add_sub_cancel' hsecond
      simp [rotateVec, List.getElem_append, Rotary.rotate, hnot, hback]

variable {shape : CacheShape} {rows : Nat} {vllmIds positions order : List Nat}
  {nextPowerOf2 : Nat → Nat} {cosSinCache kCache : Nat → K}

omit [CommRing K] in
theorem tableOf_eq (hd : Nat) (pos : Fin rows) :
    tableOf rows hd cosSinCache pos = (List.range hd).map (cosTable hd cosSinCache pos) := by
  simp [tableOf, cosTable, Strides.contiguous, Strides.offset]

omit [CommRing K] in
theorem cosTable_add (hd pos j : Nat) :
    cosTable hd cosSinCache pos (hd / 2 + j) = sinTable hd cosSinCache pos j := by
  unfold cosTable sinTable
  rw [Nat.add_assoc]

/-- **A listed block**, as the loops write it. -/
theorem cacheOf_forward_listed (hnext : ∀ n, n ≤ nextPowerOf2 n)
    (heven : shape.headDim / 2 + shape.headDim / 2 = shape.headDim) (hnodup : vllmIds.Nodup)
    (hperm : order.Perm (List.range (nRow shape vllmIds))) {i : Nat} (hi : i < vllmIds.length)
    {blk : Fin shape.totalBlocks} (hblk : vllmIds[i] = blk) {pos : Fin rows}
    (hpos : positions.getD i 0 = pos) (s : Fin shape.seqLen) (h : Fin shape.nKvHead) :
    cacheOf shape (blockWiseRopeForward nextPowerOf2 shape rows cosSinCache vllmIds positions order
        kCache) (blk, s, h) =
      rotateVec (shape.headDim / 2) (tableOf rows shape.headDim cosSinCache pos)
        (cacheOf shape kCache (blk, s, h)) := by
  have hvec := rotateVec_map (shape.headDim / 2) (cosTable shape.headDim cosSinCache pos)
    fun j => kCache (shape.address blk s h j)
  rw [heven] at hvec
  unfold cacheOf
  rw [tableOf_eq, hvec]
  apply List.map_congr_left
  intro j hj
  rw [forward_listed hnext heven hnodup hperm hi hblk hpos s.isLt h.isLt (List.mem_range.mp hj)]
  simp only [cosTable_add]

/-- **A block that is not listed.** -/
theorem cacheOf_forward_unlisted (hnext : ∀ n, n ≤ nextPowerOf2 n)
    (heven : shape.headDim / 2 + shape.headDim / 2 = shape.headDim)
    (hperm : order.Perm (List.range (nRow shape vllmIds))) {blk : Fin shape.totalBlocks}
    (hblk : (blk : Nat) ∉ vllmIds) (s : Fin shape.seqLen) (h : Fin shape.nKvHead) :
    cacheOf shape (blockWiseRopeForward nextPowerOf2 shape rows cosSinCache vllmIds positions order
        kCache) (blk, s, h) = cacheOf shape kCache (blk, s, h) := by
  apply List.map_congr_left
  intro j hj
  exact forward_unlisted hnext heven hperm hblk s.isLt h.isLt (List.mem_range.mp hj)

/-- **The loops return what the kernel leaves.** -/
theorem ropeNaiveTorch_forward (hnext : ∀ n, n ≤ nextPowerOf2 n)
    (heven : shape.headDim / 2 + shape.headDim / 2 = shape.headDim) (hnodup : vllmIds.Nodup)
    (hlen : vllmIds.length = positions.length) (hids : ∀ id ∈ vllmIds, id < shape.totalBlocks)
    (hpos : ∀ p ∈ positions, p < rows) (hperm : order.Perm (List.range (nRow shape vllmIds))) :
    ropeNaiveTorch (cacheOf shape kCache) vllmIds positions
        (tableOf rows shape.headDim cosSinCache) =
      some (cacheOf shape (blockWiseRopeForward nextPowerOf2 shape rows cosSinCache vllmIds positions
        order kCache)) := by
  rw [ropeNaiveTorch_eq hids hlen hpos]
  congr 1
  funext ⟨x, s, h⟩
  by_cases hx : (x : Nat) ∈ vllmIds
  · obtain ⟨i, hi, hxi⟩ := List.mem_iff_getElem.mp hx
    have hp : i < positions.length := hlen ▸ hi
    have hblk : x = ⟨vllmIds[i], hids _ (List.getElem_mem hi)⟩ := Fin.ext hxi.symm
    have hdisj : Programs.Disjoint (fun b : Fin vllmIds.length =>
        OwnsBlock (⟨vllmIds[b], hids _ (List.getElem_mem b.isLt)⟩ : Fin shape.totalBlocks))
        (List.finRange vllmIds.length) := by
      apply Programs.disjoint_of_unique (List.nodup_finRange _)
      rintro b - b' - ⟨y, s, h⟩ hown hown'
      have heq := (ownsBlock_iff.mp hown).trans (ownsBlock_iff.mp hown').symm
      exact Fin.ext (hnodup.getElem_inj_iff.mp (Fin.mk.inj heq))
    rw [Programs.run_of_owned (blockPass_local _ _) hdisj _ (List.mem_finRange ⟨i, hi⟩)
      (ownsBlock_iff.mpr hblk.symm)]
    have hget : positions.getD i 0 =
        ((⟨positions[i], hpos _ (List.getElem_mem hp)⟩ : Fin rows) : Nat) :=
      (List.getElem_eq_getD 0).symm
    rw [cacheOf_forward_listed hnext heven hnodup hperm hi hxi hget, hblk]
    exact blockPass_apply _ s h
  · rw [cacheOf_forward_unlisted hnext heven hperm hx]
    apply Programs.run_of_unowned (blockPass_local _ _)
    intro b _ hown
    apply hx
    rw [← ownsBlock_iff.mp hown]
    exact List.getElem_mem b.isLt

/-- **Two turns of a key** are one, if the angles of the table add up. -/
theorem rotateVec_rotateVec (heven : shape.headDim / 2 + shape.headDim / 2 = shape.headDim)
    (hangle : Rotary.AngleAddition (shape.headDim / 2) rows (cosTable shape.headDim cosSinCache)
      (sinTable shape.headDim cosSinCache)) {p d q : Fin rows} (hq : (q : Nat) = p + d) {x : List K}
    (hx : x.length = shape.headDim) :
    rotateVec (shape.headDim / 2) (tableOf rows shape.headDim cosSinCache d)
        (rotateVec (shape.headDim / 2) (tableOf rows shape.headDim cosSinCache p) x) =
      rotateVec (shape.headDim / 2) (tableOf rows shape.headDim cosSinCache q) x := by
  have hmap : x = (List.range shape.headDim).map (x.getD · 0) := by
    apply List.ext_getElem
    · simp [hx]
    · intro j hj _
      simp [hj]
  have hvec := rotateVec_map (K := K) (shape.headDim / 2)
  rw [heven] at hvec
  rw [hmap]
  simp only [tableOf_eq, hvec]
  apply List.map_congr_left
  intro j hj
  have hlt : j < shape.headDim / 2 + shape.headDim / 2 := by
    rw [heven]
    exact List.mem_range.mp hj
  simp only [cosTable_add]
  rw [hq]
  exact hangle.rotate_add (hq ▸ q.isLt) hlt

end Both

end UnifiedCache.Sparse.BlockwiseRope
