import Mathlib.Tactic.Ring
import UnifiedCache.Gsa.KeyHashCache

/-!
# Proofs: the key-hash cache of GSA on a device

Both kernels are reduced to one formula each: where the writer puts a byte of a hash, and which word
the reader takes. The writer goes by token and then by head, the reader by head and then by token.
-/

open Lib

namespace UnifiedCache.Gsa

variable {sh : Shape} {args : StoreArgs} {lane : Lane} {st : Store} {rargs : ReadArgs}
  {thread : Thread} {r : Read}

theorem KeyType.size_pos (t : KeyType) : 0 < t.size := by
  cases t <;> decide

/-! ## The writer -/

theorem u8Strides_eq (sh : Shape) (blocks : Nat) :
    sh.u8Strides blocks = Strides.contiguous [blocks, sh.blockSize, sh.heads, sh.bytes] := by
  rw [Shape.u8Strides, Strides.splitStrides_contiguous, Shape.khashCacheShape]
  show Strides.contiguous [_, _, _, sh.words * sh.type.bfloat16s * 2] = _
  rw [Nat.mul_assoc]
  rfl

/-- The word of a chunk that is written for a slot and a head. -/
def Shape.element (sh : Shape) (blocks slot head chunk : Nat) : Nat :=
  Strides.offset (Strides.contiguous [blocks, sh.blockSize, sh.heads, sh.words])
    [slot / sh.blockSize, slot % sh.blockSize, head, chunk]

theorem element_eq (sh : Shape) (blocks slot head chunk : Nat) :
    sh.element blocks slot head chunk =
      slot / sh.blockSize * (sh.blockSize * sh.heads * sh.words) +
        (slot % sh.blockSize * sh.heads + head) * sh.words + chunk := by
  simp only [Shape.element, Strides.contiguous, Strides.offset, List.prod_cons, List.prod_nil]
  ring

theorem address_eq (sh : Shape) (blocks slot head byte : Nat) :
    Strides.offset (Strides.contiguous [blocks, sh.blockSize, sh.heads, sh.bytes])
        [slot / sh.blockSize, slot % sh.blockSize, head, byte] =
      sh.element blocks slot head (byte / sh.type.size) * sh.type.size + byte % sh.type.size := by
  have hbyte : byte / sh.type.size * sh.type.size + byte % sh.type.size = byte :=
    Nat.div_add_mod' byte sh.type.size
  rw [element_eq]
  simp only [Strides.contiguous, Strides.offset, List.prod_cons, List.prod_nil, Shape.bytes]
  calc slot / sh.blockSize * (sh.blockSize * (sh.heads * (sh.words * sh.type.size * 1))) +
        (slot % sh.blockSize * (sh.heads * (sh.words * sh.type.size * 1)) +
          (head * (sh.words * sh.type.size * 1) + (byte * 1 + 0)))
      = slot / sh.blockSize * (sh.blockSize * sh.heads * sh.words) * sh.type.size +
          (slot % sh.blockSize * sh.heads + head) * sh.words * sh.type.size + byte := by ring
    _ = slot / sh.blockSize * (sh.blockSize * sh.heads * sh.words) * sh.type.size +
          (slot % sh.blockSize * sh.heads + head) * sh.words * sh.type.size +
          (byte / sh.type.size * sh.type.size + byte % sh.type.size) := by rw [hbyte]
    _ = _ := by ring

/-- **A lane**: it writes the byte of its column for the slot of its token if all of this is part of
the tensors, and nothing otherwise. -/
theorem fusedStore_eq (sh : Shape) (args : StoreArgs) (lane : Lane) :
    fusedStore sh args lane =
      if (lane.row < args.blockM ∧ lane.col < args.blockN / 8 ∧ lane.pidH < sh.heads) ∧
          lane.pidM * args.blockM < args.tokens ∧ lane.pidN * args.blockN < 8 * sh.bytes ∧
          lane.offsM args < args.tokens ∧ lane.offsByte args < sh.bytes ∧
          0 ≤ args.slotMapping (lane.offsM args) ∧
          args.slotMapping (lane.offsM args) < args.blocks * sh.blockSize then
        some ⟨args.slotMapping (lane.offsM args), lane.pidH, lane.offsByte args,
          sh.element args.blocks (args.slotMapping (lane.offsM args)).toNat lane.pidH
            (lane.offsByte args / sh.type.size) * sh.type.size + lane.offsByte args % sh.type.size⟩
      else none := by
  simp only [fusedStore, u8Strides_eq]
  by_cases hlane : lane.row < args.blockM ∧ lane.col < args.blockN / 8 ∧ lane.pidH < sh.heads
  swap
  · rw [if_pos hlane, if_neg fun h => hlane h.1]
  rw [if_neg (not_not.mpr hlane)]
  by_cases hm : lane.pidM * args.blockM < args.tokens
  swap
  · rw [if_pos (Nat.le_of_not_lt hm), if_neg fun h => hm h.2.1]
  rw [if_neg (Nat.not_le_of_lt hm)]
  by_cases hn : lane.pidN * args.blockN < 8 * sh.bytes
  swap
  · rw [if_pos (Nat.le_of_not_lt hn), if_neg fun h => hn h.2.2.1]
  rw [if_neg (Nat.not_le_of_lt hn)]
  by_cases htoken : lane.offsM args < args.tokens
  swap
  · rw [if_neg fun h => htoken h.1.1, if_neg fun h => htoken h.2.2.2.1]
  simp only [if_pos htoken]
  by_cases hvalid : 0 ≤ args.slotMapping (lane.offsM args) ∧
    args.slotMapping (lane.offsM args) < args.blocks * sh.blockSize
  swap
  · rw [if_neg fun h => hvalid h.1.2, if_neg fun h => hvalid h.2.2.2.2.2]
  by_cases hbyte : lane.offsByte args < sh.bytes
  swap
  · rw [if_neg fun h => hbyte h.2, if_neg fun h => hbyte h.2.2.2.2.1]
  rw [if_pos ⟨⟨htoken, hvalid⟩, hbyte⟩, if_pos ⟨htoken, hvalid⟩,
    if_pos ⟨hlane, hm, hn, htoken, hbyte, hvalid⟩, address_eq]

/-- **What is written**: the byte of a slot of the cache, within the word of its chunk. -/
theorem fusedStore_spec (h : fusedStore sh args lane = some st) :
    0 ≤ st.slot ∧ st.slot < args.blocks * sh.blockSize ∧ st.head < sh.heads ∧
      st.byte < sh.bytes ∧
      st.address / sh.type.size =
        sh.element args.blocks st.slot.toNat st.head (st.byte / sh.type.size) := by
  rw [fusedStore_eq] at h
  split_ifs at h with hall
  obtain ⟨hlane, -, -, -, hbyte, hvalid⟩ := hall
  cases h
  refine ⟨hvalid.1, hvalid.2, hlane.2.2, hbyte, ?_⟩
  exact Strides.mul_add_div_of_lt (Nat.mod_lt _ sh.type.size_pos)

theorem toNat_slot_lt {slot : Int} {blocks : Nat} (hnonneg : 0 ≤ slot)
    (hlt : slot < blocks * sh.blockSize) : slot.toNat < blocks * sh.blockSize := by
  rw [Int.toNat_lt hnonneg, Int.natCast_mul]
  exact hlt

theorem chunk_lt {byte : Nat} (h : byte < sh.bytes) : byte / sh.type.size < sh.words :=
  Nat.div_lt_of_lt_mul (by rwa [Nat.mul_comm])

theorem inBounds_element {blocks slot head chunk : Nat} (hslot : slot < blocks * sh.blockSize)
    (hhead : head < sh.heads) (hchunk : chunk < sh.words) :
    Strides.InBounds [slot / sh.blockSize, slot % sh.blockSize, head, chunk]
      [blocks, sh.blockSize, sh.heads, sh.words] := by
  have hblock : slot / sh.blockSize < blocks := Nat.div_lt_of_lt_mul (by rwa [Nat.mul_comm])
  have hoff : slot % sh.blockSize < sh.blockSize := Nat.mod_lt _ sh.blockSize_pos
  exact .cons hblock (.cons hoff (.cons hhead (.cons hchunk .nil)))

theorem element_lt {blocks slot head chunk : Nat} (hslot : slot < blocks * sh.blockSize)
    (hhead : head < sh.heads) (hchunk : chunk < sh.words) :
    sh.element blocks slot head chunk < blocks * sh.blockSize * sh.heads * sh.words := by
  have hlt := Strides.offset_lt (inBounds_element hslot hhead hchunk)
  have hprod : [blocks, sh.blockSize, sh.heads, sh.words].prod =
      blocks * sh.blockSize * sh.heads * sh.words := by
    simp only [List.prod_cons, List.prod_nil]
    ring
  rw [← hprod]
  exact hlt

theorem element_inj {blocks slot slot' head head' chunk chunk' : Nat}
    (hslot : slot < blocks * sh.blockSize) (hslot' : slot' < blocks * sh.blockSize)
    (hhead : head < sh.heads) (hhead' : head' < sh.heads) (hchunk : chunk < sh.words)
    (hchunk' : chunk' < sh.words)
    (h : sh.element blocks slot head chunk = sh.element blocks slot' head' chunk') :
    slot = slot' ∧ head = head' ∧ chunk = chunk' := by
  have hindex := Strides.offset_inj (inBounds_element hslot hhead hchunk)
    (inBounds_element hslot' hhead' hchunk') h
  simp only [List.cons.injEq, and_true] at hindex
  obtain ⟨hblock, hoff, hh, hc⟩ := hindex
  refine ⟨?_, hh, hc⟩
  rw [← Nat.div_add_mod slot sh.blockSize, hblock, hoff, Nat.div_add_mod]

theorem exists_fusedStore (args : StoreArgs) {token head byte : Nat} (htoken : token < args.tokens)
    (hhead : head < sh.heads) (hbyte : byte < sh.bytes) (hslot : 0 ≤ args.slotMapping token)
    (hslot' : args.slotMapping token < args.blocks * sh.blockSize) :
    ∃ lane st, fusedStore sh args lane = some st ∧ st.slot = args.slotMapping token ∧
      st.head = head ∧ st.byte = byte := by
  have hblockN : args.blockN = args.blockN / 8 * 8 := by
    have := args.blockN_mod
    omega
  have hpos : 0 < args.blockN / 8 := by
    have := args.blockN_pos
    omega
  let lane : Lane := ⟨token / args.blockM, byte / (args.blockN / 8), head, token % args.blockM,
    byte % (args.blockN / 8)⟩
  have hm : lane.offsM args = token := Nat.div_add_mod' token args.blockM
  have hn : lane.offsByte args = byte := Nat.div_add_mod' byte (args.blockN / 8)
  have hpidM : lane.pidM * args.blockM < args.tokens :=
    Nat.lt_of_le_of_lt (Nat.div_mul_le_self token args.blockM) htoken
  have hpidN : lane.pidN * args.blockN < 8 * sh.bytes := by
    have hle : lane.pidN * (args.blockN / 8) ≤ byte := Nat.div_mul_le_self byte (args.blockN / 8)
    rw [hblockN, ← Nat.mul_assoc]
    omega
  have hlane : lane.row < args.blockM ∧ lane.col < args.blockN / 8 ∧ lane.pidH < sh.heads :=
    ⟨Nat.mod_lt _ args.blockM_pos, Nat.mod_lt _ hpos, hhead⟩
  have hslots : 0 ≤ args.slotMapping (lane.offsM args) ∧
      args.slotMapping (lane.offsM args) < args.blocks * sh.blockSize := by
    rw [hm]
    exact ⟨hslot, hslot'⟩
  have hstore := (fusedStore_eq sh args lane).trans
    (if_pos ⟨hlane, hpidM, hpidN, by rwa [hm], by rwa [hn], hslots⟩)
  exact ⟨lane, _, hstore, congrArg args.slotMapping hm, rfl, hn⟩

/-! ## The reader -/

theorem i32_of_lt {x : Nat} (h : x < int32Limit) : i32 x = x := by
  refine Int.bmod_eq_of_le_mul_two ?_ ?_ <;> simp only [int32Limit] at h <;>
    simp only [UInt32.size] <;> omega

theorem i32_lt (x : Nat) : i32 x < int32Limit := by
  have hlt : i32 x < (UInt32.size + 1) / 2 := Int.bmod_lt (by decide)
  simp only [int32Limit]
  simp only [UInt32.size] at hlt
  omega

/-- **What a thread reads**: a word of the block of its token, by head and then by token. -/
theorem keyRead_spec (h : keyRead sh rargs thread = some r) :
    r.head < sh.heads ∧ r.chunk < sh.words ∧
      (r.pos / sh.blockSize < rargs.maxNumBlockPerSeq →
        r.element =
          rargs.blockTable (thread.batchId * rargs.maxNumBlockPerSeq + r.pos / sh.blockSize) *
              i32 (sh.heads * sh.blockSize * sh.words) +
            i32 ((r.head * sh.blockSize + r.pos % sh.blockSize) * sh.words + r.chunk)) := by
  unfold keyRead at h
  dsimp only at h
  split at h
  swap
  · cases h
  split at h
  swap
  · cases h
  cases h
  refine ⟨Nat.mod_lt _ sh.heads_pos, Nat.mod_lt _ sh.words_pos, fun hlt => ?_⟩
  dsimp only at hlt ⊢
  rw [if_pos hlt]

theorem exists_keyRead (rargs : ReadArgs) (batchId : Nat) {pos head chunk : Nat}
    (hblockM : 0 < rargs.elems / sh.words / sh.heads)
    (hthreads : rargs.elems / sh.words / sh.heads * sh.heads * sh.words ≤ rargs.numThreads)
    (hseq : pos < rargs.seq) (hlen : pos < rargs.seqLen batchId) (hhead : head < sh.heads)
    (hchunk : chunk < sh.words) :
    ∃ thread r, keyRead sh rargs thread = some r ∧ thread.batchId = batchId ∧ r.pos = pos ∧
      r.head = head ∧ r.chunk = chunk := by
  generalize hB : rargs.elems / sh.words / sh.heads = blockM at hblockM hthreads
  let m := pos % blockM
  let tid := (m * sh.heads + head) * sh.words + chunk
  have hm : m < blockM := Nat.mod_lt _ hblockM
  have hpos : pos / blockM * blockM + m = pos := Nat.div_add_mod' pos blockM
  have hleft : m < min blockM (rargs.seq - pos / blockM * blockM) := by omega
  have htoken : tid / sh.words = m * sh.heads + head := Strides.mul_add_div_of_lt hchunk
  have hchunk' : tid % sh.words = chunk := Nat.mul_add_mod_of_lt hchunk
  have hhead' : (m * sh.heads + head) % sh.heads = head := Nat.mul_add_mod_of_lt hhead
  have hm' : (m * sh.heads + head) / sh.heads = m := Strides.mul_add_div_of_lt hhead
  have htid : tid < min blockM (rargs.seq - pos / blockM * blockM) * sh.heads * sh.words :=
    Strides.mul_add_lt (Strides.mul_add_lt hleft hhead) hchunk
  have htid' : tid < rargs.numThreads :=
    Nat.lt_of_lt_of_le (Strides.mul_add_lt (Strides.mul_add_lt hm hhead) hchunk) hthreads
  have hstart : pos / blockM * blockM < rargs.seqLen batchId := by omega
  have hsome : (keyRead sh rargs ⟨batchId, pos / blockM, tid⟩).map
      (fun r => (r.pos, r.head, r.chunk)) = some (pos, head, chunk) := by
    simp only [keyRead, hB, htoken, hchunk', hhead', hm', hpos]
    rw [if_pos ⟨htid', htid⟩, if_pos hstart]
    rfl
  obtain ⟨r, hr, hkey⟩ := Option.map_eq_some_iff.mp hsome
  simp only [Prod.mk.injEq] at hkey
  exact ⟨_, r, hr, rfl, hkey.1, hkey.2.1, hkey.2.2⟩

/-! ## The reader and the writer -/

theorem element_eq_iff (sh : Shape) (blocks block off head chunk : Nat) (hoff : off < sh.blockSize) :
    block * (sh.heads * sh.blockSize * sh.words) +
        ((head * sh.blockSize + off) * sh.words + chunk) =
      sh.element blocks (block * sh.blockSize + off) head chunk ↔
    head * sh.blockSize + off = off * sh.heads + head := by
  rw [element_eq, Strides.mul_add_div_of_lt hoff, Nat.mul_add_mod_of_lt hoff,
    Nat.mul_comm sh.heads sh.blockSize, Nat.add_assoc,
    Nat.add_left_cancel_iff, Nat.add_right_cancel_iff, Nat.mul_left_inj sh.words_pos.ne']

theorem readsWritten_of (hone : sh.heads = 1 ∨ sh.blockSize = 1)
    (hlt : sh.heads * sh.blockSize * sh.words < int32Limit) : ReadsWritten sh := by
  intro args lane st rargs thread r hst hr _ hcolumn hslot hhead hchunk
  obtain ⟨hnonneg, -, -, -, haddress⟩ := fusedStore_spec hst
  obtain ⟨hheads, hwords, helement⟩ := keyRead_spec hr
  have hoff : r.pos % sh.blockSize < sh.blockSize := Nat.mod_lt _ sh.blockSize_pos
  generalize hb : rargs.blockTable
    (thread.batchId * rargs.maxNumBlockPerSeq + r.pos / sh.blockSize) = b at hslot helement
  have hbnonneg : 0 ≤ b := by
    by_contra hneg
    have hmul : b * sh.blockSize ≤ -1 * sh.blockSize :=
      Int.mul_le_mul_of_nonneg_right (by omega) (by omega)
    omega
  obtain ⟨block, rfl⟩ := Int.eq_ofNat_of_zero_le hbnonneg
  have hslot' : st.slot.toNat = block * sh.blockSize + r.pos % sh.blockSize := by
    rw [hslot]
    exact Int.toNat_natCast (block * sh.blockSize + r.pos % sh.blockSize)
  have hword : (r.head * sh.blockSize + r.pos % sh.blockSize) * sh.words + r.chunk < int32Limit :=
    Nat.lt_trans (Strides.mul_add_lt (Strides.mul_add_lt hheads hoff) hwords) hlt
  have hsame : r.head * sh.blockSize + r.pos % sh.blockSize =
      r.pos % sh.blockSize * sh.heads + r.head := by
    rcases hone with hh | hs
    · rw [hh] at hheads ⊢
      rw [Nat.lt_one_iff.mp hheads]
      omega
    · rw [hs] at hoff ⊢
      rw [Nat.lt_one_iff.mp hoff]
      omega
  have hword' := (element_eq_iff sh args.blocks block _ r.head r.chunk hoff).mpr hsame
  rw [helement hcolumn, i32_of_lt hlt, i32_of_lt hword, haddress, hslot', hhead, hchunk, ← hword']
  push_cast
  ring

/-- A cache of so many blocks in which one token is written. -/
def StoreArgs.one (blocks : Nat) (slot : Int) : StoreArgs :=
  ⟨blocks, 1, fun _ => slot, 1, 8, Nat.one_pos, Nat.zero_lt_succ 7, Nat.mod_self 8⟩

/-- A sequence of one token in a block. -/
def ReadArgs.one (sh : Shape) (block : Int) : ReadArgs :=
  ⟨sh.heads * sh.words, sh.heads * sh.words, 1, fun _ => block, 1, fun _ => 1⟩

theorem ReadsWritten.first (h : ReadsWritten sh) (block : Nat) {head : Nat}
    (hhead : head < sh.heads) :
    (sh.element (block + 1) (block * sh.blockSize) head 0 : Int) =
      block * i32 (sh.heads * sh.blockSize * sh.words) +
        i32 (head * sh.blockSize * sh.words) := by
  have hbytes : 0 < sh.bytes := Nat.mul_pos sh.words_pos sh.type.size_pos
  have hslot : ((block * sh.blockSize : Nat) : Int) < (block + 1 : Nat) * sh.blockSize := by
    have hlt : block * sh.blockSize < (block + 1) * sh.blockSize :=
      Nat.mul_lt_mul_of_pos_right (Nat.lt_succ_self _) sh.blockSize_pos
    exact_mod_cast hlt
  obtain ⟨lane, st, hst, hstSlot, hstHead, hstByte⟩ := exists_fusedStore
    (.one (block + 1) (block * sh.blockSize : Nat)) Nat.one_pos hhead hbytes
    (Int.natCast_nonneg _) hslot
  have hblockM : sh.heads * sh.words / sh.words / sh.heads = 1 := by
    rw [Nat.mul_div_cancel _ sh.words_pos, Nat.div_self sh.heads_pos]
  obtain ⟨thread, r, hr, hbatch, hpos, hrHead, hrChunk⟩ := exists_keyRead
    (.one sh block) 0 (by rw [ReadArgs.one, hblockM]; decide)
    (by rw [ReadArgs.one, hblockM, Nat.one_mul]) Nat.one_pos Nat.one_pos hhead sh.words_pos
  have hcolumn : r.pos / sh.blockSize < 1 := by
    rw [hpos, Nat.zero_div]
    exact Nat.one_pos
  have hstSlot' : st.slot = block * sh.blockSize + (r.pos % sh.blockSize : Nat) := by
    rw [hstSlot, hpos, Nat.zero_mod]
    rfl
  have hstChunk : st.byte / sh.type.size = r.chunk := by
    rw [hstByte, hrChunk, Nat.zero_div]
  have hsame := h _ lane st _ thread r hst hr (by rw [hpos]; exact Nat.one_pos) hcolumn hstSlot'
    (hstHead.trans hrHead.symm) hstChunk
  obtain ⟨-, -, -, -, haddress⟩ := fusedStore_spec hst
  obtain ⟨-, -, helement⟩ := keyRead_spec hr
  rw [haddress, helement hcolumn, hstSlot, hstHead, hstByte, hpos, hrHead, hrChunk, Nat.zero_div,
    Nat.zero_mod, Nat.add_zero, Nat.add_zero] at hsame
  exact hsame

theorem element_first (sh : Shape) (block head : Nat) :
    sh.element (block + 1) (block * sh.blockSize) head 0 =
      block * (sh.heads * sh.blockSize * sh.words) + head * sh.words := by
  rw [element_eq, Nat.mul_div_cancel _ sh.blockSize_pos, Nat.mul_mod_left, Nat.zero_mul,
    Nat.zero_add, Nat.add_zero, Nat.mul_comm sh.blockSize sh.heads]

theorem ReadsWritten.fits (h : ReadsWritten sh) :
    sh.heads * sh.blockSize * sh.words < int32Limit := by
  have hfirst := h.first 1 sh.heads_pos
  have hzero : i32 (0 * sh.blockSize * sh.words) = 0 := by
    rw [Nat.zero_mul, Nat.zero_mul]
    rfl
  rw [element_first, hzero, Nat.one_mul, Nat.zero_mul, Nat.add_zero, Int.add_zero] at hfirst
  have hlt := i32_lt (sh.heads * sh.blockSize * sh.words)
  push_cast at hfirst
  rw [Int.one_mul, ← Int.natCast_mul, ← Int.natCast_mul] at hfirst
  omega

theorem ReadsWritten.one (h : ReadsWritten sh) : sh.heads = 1 ∨ sh.blockSize = 1 := by
  by_contra hnot
  obtain ⟨hheads, hsize⟩ := not_or.mp hnot
  have hheads' : 1 < sh.heads := Nat.lt_of_le_of_ne sh.heads_pos (Ne.symm hheads)
  have hsize' : 2 * sh.words ≤ sh.blockSize * sh.words :=
    Nat.mul_le_mul_right _ (Nat.lt_of_le_of_ne sh.blockSize_pos (Ne.symm hsize))
  have hfits : 1 * sh.blockSize * sh.words < int32Limit :=
    Nat.lt_of_le_of_lt (Nat.mul_le_mul_right _ (Nat.mul_le_mul_right _ sh.heads_pos)) h.fits
  have hfirst := h.first 0 hheads'
  rw [element_first, i32_of_lt hfits] at hfirst
  have hwords := sh.words_pos
  rw [Nat.one_mul, Nat.one_mul, Nat.zero_mul, Nat.zero_add] at hfirst
  omega

/-- **The key-hash cache**: what the CUDA kernel reads for a token, a head and a chunk is what the
Triton kernel wrote for its slot, in every launch, exactly if there is one kv head or a block has one
token, and a block has fewer than 2^31 words. The Triton kernel never writes outside of the cache, and
different slots, heads and chunks go to different words. -/
theorem reads_written_iff (sh : Shape) :
    (ReadsWritten sh ↔ (sh.heads = 1 ∨ sh.blockSize = 1) ∧
      sh.heads * sh.blockSize * sh.words < int32Limit) ∧
    (∀ args lane st, fusedStore sh args lane = some st →
      0 ≤ st.slot ∧ st.slot < args.blocks * sh.blockSize ∧
        st.address / sh.type.size < args.blocks * sh.blockSize * sh.heads * sh.words) ∧
    ∀ args lane lane' st st', fusedStore sh args lane = some st →
      fusedStore sh args lane' = some st' →
      (st.address / sh.type.size = st'.address / sh.type.size ↔
        st.slot = st'.slot ∧ st.head = st'.head ∧
          st.byte / sh.type.size = st'.byte / sh.type.size) := by
  refine ⟨⟨fun h => ⟨h.one, h.fits⟩, fun h => readsWritten_of h.1 h.2⟩, ?_, ?_⟩
  · intro args lane st hst
    obtain ⟨hnonneg, hslot, hhead, hbyte, haddress⟩ := fusedStore_spec hst
    refine ⟨hnonneg, hslot, ?_⟩
    rw [haddress]
    exact element_lt (toNat_slot_lt hnonneg hslot) hhead (chunk_lt hbyte)
  · intro args lane lane' st st' hst hst'
    obtain ⟨hnonneg, hslot, hhead, hbyte, haddress⟩ := fusedStore_spec hst
    obtain ⟨hnonneg', hslot', hhead', hbyte', haddress'⟩ := fusedStore_spec hst'
    rw [haddress, haddress']
    constructor
    · intro heq
      obtain ⟨hs, hh, hc⟩ := element_inj (toNat_slot_lt hnonneg hslot)
        (toNat_slot_lt hnonneg' hslot') hhead hhead' (chunk_lt hbyte) (chunk_lt hbyte') heq
      exact ⟨by omega, hh, hc⟩
    · rintro ⟨hs, hh, hc⟩
      rw [hs, hh, hc]

theorem Shape.mla_pos : 0 < 64 ∧ 0 < 1 ∧ 0 < (keyType 18).2 := by decide

theorem Shape.mla_lt : 64 < int32Limit ∧ 1 < int32Limit ∧ (keyType 18).2 < int32Limit := by decide

/-- Blocks of 64 tokens of one head, with hashes of 576 bits. -/
def Shape.mla : Shape := .ofNumChunk 64 1 18 mla_pos mla_lt

/-- With one head the hashes are read where they are written. -/
theorem reads_written_mla : ReadsWritten .mla ∧ ∃ lane st,
    fusedStore .mla (.one 2 70) lane = some st ∧ st.slot = 70 ∧
      st.address / 8 < 2 * 64 * 1 * 9 := by
  obtain ⟨hiff, hrange, -⟩ := reads_written_iff .mla
  have hstore : fusedStore .mla (.one 2 70) ⟨0, 3, 0, 0, 0⟩ = some ⟨70, 0, 3, 5043⟩ := by
    decide +kernel
  exact ⟨hiff.mpr ⟨.inl rfl, by decide⟩, _, _, hstore, rfl, (hrange _ _ _ hstore).2.2⟩

theorem Shape.eight_pos : 0 < 128 ∧ 0 < 8 ∧ 0 < (keyType 4).2 := by decide

theorem Shape.eight_lt : 128 < int32Limit ∧ 8 < int32Limit ∧ (keyType 4).2 < int32Limit := by decide

/-- Blocks of 128 tokens of 8 kv heads, with hashes of 128 bits in words of 64 bits. -/
def Shape.eight : Shape := .ofNumChunk 128 8 4 eight_pos eight_lt

/-- The first word of the second head of the first token is written to the element 2 of the cache, and
it is read from the element 256. -/
theorem reads_elsewhere : ∃ lane st thread r,
    fusedStore .eight (.one 1 0) lane = some st ∧
      keyRead .eight (.launch .eight 128 1 (fun _ => 0) fun _ => 1) thread = some r ∧
      (st.slot, st.head, st.byte / 8) = (0, 1, 0) ∧ (r.pos, r.head, r.chunk) = (0, 1, 0) ∧
      st.address / 8 = 2 ∧ r.element = 256 :=
  ⟨⟨0, 0, 1, 0, 0⟩, ⟨0, 1, 0, 16⟩, ⟨0, 0, 2⟩, ⟨0, 1, 0, 256⟩, by decide +kernel⟩

end UnifiedCache.Gsa
