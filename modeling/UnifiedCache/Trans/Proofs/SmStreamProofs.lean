import UnifiedCache.Trans.Proofs.SmCopyProofs

/-!
# Proofs: the two streams

The kernel copies what the plain stream copies if and only if every byte of the buffers is, on both sides,
a byte of one unit, and the units can be accessed. With buffers that do not touch each other this means
that the size is a number of units.
-/

open Lib

namespace UnifiedCache.Trans

open CudaStream CudaSmStream

variable {buffers : Buffers} {size number : Nat} {mem : Memory} {s s' : State} {i j k o : Nat}

/-! ## The plain stream -/

/-- The buffers have no byte in common. -/
structure DisjointBuffers (buffers : Buffers) (size number : Nat) : Prop where
  src : ∀ i < number, ∀ j < number, ∀ k < size, ∀ l < size,
    srcOf size i buffers + k = srcOf size j buffers + l → i = j
  dst : ∀ i < number, ∀ j < number, ∀ k < size, ∀ l < size,
    dstOf size i buffers + k = dstOf size j buffers + l → i = j
  srcDst : ∀ i < number, ∀ j < number, ∀ k < size, ∀ l < size,
    srcOf size i buffers + k ≠ dstOf size j buffers + l

theorem memcpy_of_mem (hk : k < size) : memcpy mem i j size (i + k) = mem (j + k) := by
  unfold memcpy
  rw [if_pos ⟨Nat.le_add_right _ _, Nat.add_lt_add_left hk _⟩, Nat.add_sub_cancel_left]

theorem memcpy_of_notMem {a : Nat} (h : ∀ k < size, a ≠ i + k) : memcpy mem i j size a = mem a := by
  unfold memcpy
  refine if_neg ?_
  rintro ⟨hle, hlt⟩
  exact h (a - i) (by omega) (by omega)

theorem copyAsync_spec (mem : Memory) (hd : DisjointBuffers buffers size number) {n : Nat} (hn : n ≤ number) :
    (∀ i < n, ∀ k < size, copyAsync buffers size n mem (dstOf size i buffers + k) =
      mem (srcOf size i buffers + k)) ∧
    ∀ a, (∀ i < n, ∀ k < size, a ≠ dstOf size i buffers + k) → copyAsync buffers size n mem a = mem a := by
  induction n with
  | zero => exact ⟨fun i hi => absurd hi (Nat.not_lt_zero i), fun a _ => rfl⟩
  | succ n ih =>
    obtain ⟨hcopied, hkept⟩ := ih (Nat.le_of_succ_le hn)
    have hnext : copyAsync buffers size (n + 1) mem = memcpy (copyAsync buffers size n mem)
        (dstOf size n buffers) (srcOf size n buffers) size := by
      unfold copyAsync
      rw [List.range_succ, List.foldl_append, List.foldl_cons, List.foldl_nil]
    rw [hnext]
    refine ⟨fun i hi k hk => ?_, fun a ha => ?_⟩
    · rcases Nat.lt_succ_iff_lt_or_eq.mp hi with hi' | rfl
      · have hne : ∀ l < size, dstOf size i buffers + k ≠ dstOf size n buffers + l := by
          intro l hl heq
          have hin := hd.dst i (by omega) n (by omega) k hk l hl heq
          omega
        rw [memcpy_of_notMem hne]
        exact hcopied i hi' k hk
      · rw [memcpy_of_mem hk]
        refine hkept _ fun j hj l hl => ?_
        exact hd.srcDst i (by omega) j (by omega) k hk l hl
    · rw [memcpy_of_notMem (ha n (Nat.lt_succ_self n))]
      exact hkept a fun i hi => ha i (Nat.lt_succ_of_lt hi)

/-! ## The condition -/

/-- Copying with the kernel, in any order of its threads, for all contents of the memory. -/
structure CopiesLikeStream (buffers : Buffers) (size number : Nat) : Prop where
  /-- The kernel can end from wherever it is. -/
  ends : ∀ mem s, (machine buffers size number mem).Reachable s →
    ∃ s', ((machine buffers size number mem).after s).Reachable s' ∧ Finished size number s'
  /-- Then the memory is what the plain stream leaves. -/
  result : ∀ mem s, (machine buffers size number mem).Reachable s → Finished size number s →
    s.mem = copyAsync buffers size number mem
  reads : ∀ mem s, (machine buffers size number mem).Reachable s → ∀ x ∈ s.accesses,
    x.write = false → ∀ j < vectorSize, ∃ i < number, ∃ k < size,
      x.address + j = srcOf size i buffers + k
  writes : ∀ mem s, (machine buffers size number mem).Reachable s → ∀ x ∈ s.accesses,
    x.write = true → ∀ j < vectorSize, ∃ i < number, ∃ k < size,
      x.address + j = dstOf size i buffers + k
  /-- No byte is written by two threads. -/
  once : ∀ mem s, (machine buffers size number mem).Reachable s → ∀ x ∈ s.accesses, ∀ y ∈ s.accesses,
    x.write = true → y.write = true → ∀ j < vectorSize, ∀ k < vectorSize,
      x.address + j = y.address + k → x.thread = y.thread

/-- The units can be accessed, and every byte of the buffers is a byte of one of them, at the source as
at the destination. -/
structure UnitsFit (buffers : Buffers) (size number : Nat) : Prop where
  aligned : Aligned buffers size number
  covered : ∀ i < number, ∀ k < size, ∃ unit < size * number / unitSize, ∃ j < unitSize,
    hostOf size (unit * unitSize) buffers + j = srcOf size i buffers + k ∧
      deviceOf size (unit * unitSize) buffers + j = dstOf size i buffers + k

theorem place_div_mod (unit : Nat) (hj : j < 32) :
    (unit * 32 + j) / 32 = unit ∧ (unit * 32 + j) % 32 = j := by omega

theorem UnitsFit.bytes (hfit : UnitsFit buffers size number)
    (hd : DisjointBuffers buffers size number) : size * number % 32 = 0 ∧
    ∃ place : Fin number × Fin size → Nat,
      (∀ p, place p / 32 < size * number / 32 ∧
        readAt buffers size (place p) = srcOf size p.1 buffers + p.2 ∧
        writtenAt buffers size (place p) = dstOf size p.1 buffers + p.2) ∧
      ∀ o, o / 32 < size * number / 32 → ∃ p, place p = o := by
  have hplaces : ∀ p : Fin number × Fin size, ∃ o, o / 32 < size * number / 32 ∧
      readAt buffers size o = srcOf size p.1 buffers + p.2 ∧
      writtenAt buffers size o = dstOf size p.1 buffers + p.2 := by
    intro p
    obtain ⟨unit, hunit, j, hj, hhost, hdevice⟩ := hfit.covered p.1 p.1.isLt p.2 p.2.isLt
    rw [unitSize_eq] at hunit hj hhost hdevice
    obtain ⟨hdiv, hmod⟩ := place_div_mod unit hj
    refine ⟨unit * 32 + j, by rw [hdiv]; exact hunit, ?_, ?_⟩
    · unfold readAt
      rw [hdiv, hmod, hhost]
    · unfold writtenAt
      rw [hdiv, hmod, hdevice]
  choose place hplace using hplaces
  -- There are no more bytes in the units than in the buffers.
  have hlt : ∀ o, o / 32 < size * number / 32 → o < size * number / 32 * 32 := by
    intro o ho
    omega
  have hinj : Function.Injective fun p => (⟨place p, hlt _ (hplace p).1⟩ :
      Fin (size * number / 32 * 32)) := by
    intro p q hpq
    have heq : place p = place q := congrArg Fin.val hpq
    have hdst : dstOf size p.1 buffers + p.2 = dstOf size q.1 buffers + q.2 := by
      rw [← (hplace p).2.2, ← (hplace q).2.2, heq]
    have hfirst := hd.dst p.1 p.1.isLt q.1 q.1.isLt p.2 p.2.isLt q.2 q.2.isLt hdst
    rw [hfirst] at hdst
    exact Prod.ext (Fin.ext hfirst) (Fin.ext (Nat.add_left_cancel hdst))
  have hcard := Fintype.card_le_of_injective _ hinj
  rw [Fintype.card_prod, Fintype.card_fin, Fintype.card_fin, Fintype.card_fin,
    Nat.mul_comm number size] at hcard
  have hsame : Fintype.card (Fin number × Fin size) =
      Fintype.card (Fin (size * number / 32 * 32)) := by
    rw [Fintype.card_prod, Fintype.card_fin, Fintype.card_fin, Fintype.card_fin,
      Nat.mul_comm number size]
    omega
  refine ⟨by omega, place, hplace, fun o ho => ?_⟩
  obtain ⟨p, hp⟩ := ((Fintype.bijective_iff_injective_and_card _).mpr ⟨hinj, hsame⟩).2 ⟨o, hlt o ho⟩
  exact ⟨p, congrArg Fin.val hp⟩

theorem vector_place (buffers : Buffers) (size : Nat) (hbegin : o % 32 = 0 ∨ o % 32 = 16) (hj : j < vectorSize) :
    (o + j) / 32 = o / 32 ∧ readAt buffers size o + j = readAt buffers size (o + j) ∧
      writtenAt buffers size o + j = writtenAt buffers size (o + j) := by
  rw [vectorSize_eq] at hj
  have hdiv : (o + j) / 32 = o / 32 := by omega
  have hmod : (o + j) % 32 = o % 32 + j := by omega
  unfold readAt writtenAt
  rw [hdiv, hmod, Nat.add_assoc, Nat.add_assoc]
  exact ⟨rfl, rfl, rfl⟩

theorem UnitsFit.copiesLikeStream (hfit : UnitsFit buffers size number)
    (hd : DisjointBuffers buffers size number) : CopiesLikeStream buffers size number := by
  obtain ⟨-, place, hplace, hall⟩ := hfit.bytes hd
  have hread : ∀ o, o / 32 < size * number / 32 → ∃ i < number, ∃ k < size,
      readAt buffers size o = srcOf size i buffers + k ∧
        writtenAt buffers size o = dstOf size i buffers + k := by
    intro o ho
    obtain ⟨p, rfl⟩ := hall o ho
    exact ⟨p.1, p.1.isLt, p.2, p.2.isLt, (hplace p).2⟩
  have hinj : ∀ o o', o / 32 < size * number / 32 → o' / 32 < size * number / 32 →
      writtenAt buffers size o = writtenAt buffers size o' → o = o' := by
    intro o o' ho ho' heq
    obtain ⟨p, rfl⟩ := hall o ho
    obtain ⟨q, rfl⟩ := hall o' ho'
    rw [(hplace p).2.2, (hplace q).2.2] at heq
    have hfirst := hd.dst p.1 p.1.isLt q.1 q.1.isLt p.2 p.2.isLt q.2 q.2.isLt heq
    rw [hfirst] at heq
    exact congrArg place (Prod.ext (Fin.ext hfirst) (Fin.ext (Nat.add_left_cancel heq)))
  have hsep : Separate buffers size number := by
    intro o o' ho ho' heq
    obtain ⟨i, hi, k, hk, hsrc, _⟩ := hread o ho
    obtain ⟨i', hi', k', hk', _, hdst⟩ := hread o' ho'
    rw [hsrc, hdst] at heq
    exact hd.srcDst i hi i' hi' k hk k' hk' heq
  refine ⟨fun mem s hs => exists_finished hfit.aligned hs, ?_, ?_, ?_, ?_⟩
  · intro mem s hs hfinished
    have hp := progress_of_reachable hs
    have hc := contents_of_reachable hsep hs
    obtain ⟨hcopied, hkept⟩ := copyAsync_spec mem hd (Nat.le_refl number)
    funext a
    by_cases ha : ∃ i < number, ∃ k < size, a = dstOf size i buffers + k
    · obtain ⟨i, hi, k, hk, rfl⟩ := ha
      rw [hcopied i hi k hk]
      obtain ⟨hunit, hsrc, hdst⟩ := hplace (⟨i, hi⟩, ⟨k, hk⟩)
      rcases hc.mem (dstOf size i buffers + k) with ⟨_, hnot⟩ | ⟨o, ho, hwritten, hvalue⟩
      · exact absurd hdst (hnot _ (hp.stored_of_finished hfinished hunit))
      · have hsame := hinj o _ (hp.stored o ho) hunit (hwritten.trans hdst.symm)
        rw [hvalue, hsame, hsrc]
    · rw [hkept a fun i hi k hk heq => ha ⟨i, hi, k, hk, heq⟩]
      rcases hc.mem a with ⟨hsame, _⟩ | ⟨o, ho, hwritten, _⟩
      · exact hsame
      · obtain ⟨i, hi, k, hk, _, hdst⟩ := hread o (hp.stored o ho)
        exact absurd ⟨i, hi, k, hk, hwritten.symm.trans hdst⟩ ha
  · intro mem s hs x hx hwrite j hj
    obtain ⟨o, ho, hbegin, _, haddress, _⟩ := (progress_of_reachable hs).accesses x hx
    obtain ⟨hdiv, hplaceRead, _⟩ := vector_place buffers size hbegin hj
    obtain ⟨i, hi, k, hk, hsrc, _⟩ := hread (o + j) (by rw [hdiv]; exact ho)
    refine ⟨i, hi, k, hk, ?_⟩
    rw [haddress, hwrite, if_neg Bool.false_ne_true, hplaceRead, hsrc]
  · intro mem s hs x hx hwrite j hj
    obtain ⟨o, ho, hbegin, _, haddress, _⟩ := (progress_of_reachable hs).accesses x hx
    obtain ⟨hdiv, _, hplaceWrite⟩ := vector_place buffers size hbegin hj
    obtain ⟨i, hi, k, hk, _, hdst⟩ := hread (o + j) (by rw [hdiv]; exact ho)
    refine ⟨i, hi, k, hk, ?_⟩
    rw [haddress, hwrite, if_pos rfl, hplaceWrite, hdst]
  · intro mem s hs x hx y hy hwrite hwrite' j hj k hk heq
    obtain ⟨o, ho, hbegin, hthread, haddress, _⟩ := (progress_of_reachable hs).accesses x hx
    obtain ⟨o', ho', hbegin', hthread', haddress', _⟩ := (progress_of_reachable hs).accesses y hy
    obtain ⟨hdiv, _, hplaceWrite⟩ := vector_place buffers size hbegin hj
    obtain ⟨hdiv', _, hplaceWrite'⟩ := vector_place buffers size hbegin' hk
    rw [haddress, haddress', hwrite, hwrite', if_pos rfl, if_pos rfl, hplaceWrite, hplaceWrite'] at heq
    have hsame := hinj _ _ (by rw [hdiv]; exact ho) (by rw [hdiv']; exact ho') heq
    rw [hthread, hthread', ← hdiv, ← hdiv', hsame]

theorem CopiesLikeStream.unitsFit (hok : CopiesLikeStream buffers size number)
    (hd : DisjointBuffers buffers size number) : UnitsFit buffers size number := by
  have hend : ∀ mem, ∃ s, (machine buffers size number mem).Reachable s ∧ Finished size number s :=
    fun mem => hok.ends mem (start mem) (.init rfl)
  obtain ⟨s, hs, hfinished⟩ := hend fun _ => 0
  have hp := progress_of_reachable hs
  have hvector : ∀ o, o / 32 < size * number / 32 → ∃ o' j, (o' % 32 = 0 ∨ o' % 32 = 16) ∧
      j < vectorSize ∧ o = o' + j ∧ o' / 32 < size * number / 32 := by
    intro o ho
    rw [vectorSize_eq]
    exact ⟨o - o % 16, o % 16, by omega, by omega, by omega, by omega⟩
  have hread : ∀ o, o / 32 < size * number / 32 → ∃ i < number, ∃ k < size,
      readAt buffers size o = srcOf size i buffers + k := by
    intro o ho
    obtain ⟨o', j, hbegin, hj, rfl, ho'⟩ := hvector o ho
    have hmem := hp.reads o' hbegin (loaded_of_stored (hp.stored_of_finished hfinished ho'))
    rw [← (vector_place buffers size hbegin hj).2.1]
    exact hok.reads _ s hs _ hmem rfl j hj
  have hwritten : ∀ o, o / 32 < size * number / 32 → ∃ i < number, ∃ k < size,
      writtenAt buffers size o = dstOf size i buffers + k := by
    intro o ho
    obtain ⟨o', j, hbegin, hj, rfl, ho'⟩ := hvector o ho
    have hmem := hp.writes o' hbegin (hp.stored_of_finished hfinished ho')
    rw [← (vector_place buffers size hbegin hj).2.2]
    exact hok.writes _ s hs _ hmem rfl j hj
  have hsep : Separate buffers size number := by
    intro o o' ho ho' heq
    obtain ⟨i, hi, k, hk, hsrc⟩ := hread o ho
    obtain ⟨i', hi', k', hk', hdst⟩ := hwritten o' ho'
    rw [hsrc, hdst] at heq
    exact hd.srcDst i hi i' hi' k hk k' hk' heq
  refine ⟨fun unit hunit => ?_, fun i hi k hk => ?_⟩
  · rw [unitSize_eq] at hunit ⊢
    obtain ⟨hdiv, hmod⟩ := place_div_mod (j := 0) unit (by decide)
    rw [Nat.add_zero] at hdiv hmod
    have hstored : Stored s (unit * 32) :=
      hp.stored_of_finished hfinished (by rw [hdiv]; exact hunit)
    obtain ⟨_, _, _, _, _, hreadAligned⟩ := hp.accesses _
      (hp.reads (unit * 32) (Or.inl hmod) (loaded_of_stored hstored))
    obtain ⟨_, _, _, _, _, hwriteAligned⟩ := hp.accesses _ (hp.writes (unit * 32) (Or.inl hmod) hstored)
    unfold readAt at hreadAligned
    unfold writtenAt at hwriteAligned
    rw [hdiv, hmod] at hreadAligned hwriteAligned
    exact ⟨hreadAligned, hwriteAligned⟩
  · -- A memory with one byte that differs shows where a byte comes from.
    obtain ⟨s₁, hs₁, hfinished₁⟩ :=
      hend fun a => if a = srcOf size i buffers + k then 1 else 0
    have hp₁ := progress_of_reachable hs₁
    have hresult := congrFun (hok.result _ s₁ hs₁ hfinished₁) (dstOf size i buffers + k)
    rw [(copyAsync_spec _ hd (Nat.le_refl number)).1 i hi k hk, if_pos rfl] at hresult
    rcases (contents_of_reachable hsep hs₁).mem (dstOf size i buffers + k) with
      ⟨hsame, _⟩ | ⟨o, ho, hdst, hvalue⟩
    · rw [hresult, if_neg fun heq => hd.srcDst i hi i hi k hk k hk heq.symm] at hsame
      exact absurd hsame (by decide)
    · rw [hresult] at hvalue
      have hsrc : readAt buffers size o = srcOf size i buffers + k := by
        by_contra hne
        rw [if_neg hne] at hvalue
        exact absurd hvalue (by decide)
      rw [unitSize_eq]
      exact ⟨o / 32, hp₁.stored o ho, o % 32, Nat.mod_lt _ (by decide), hsrc, hdst⟩

/-! ## The size of the buffers -/

theorem hostOf_eq (size o : Nat) (buffers : Buffers) :
    hostOf size o buffers = srcOf size (o / size) buffers + o % size := by
  cases buffers with
  | arrayToArray src dst => rfl
  | arrayToBuffer src dst => rfl
  | bufferToArray src dst =>
    show src + o = src + size * (o / size) + o % size
    rw [Nat.add_assoc, Nat.div_add_mod]

theorem deviceOf_eq (size o : Nat) (buffers : Buffers) :
    deviceOf size o buffers = dstOf size (o / size) buffers + o % size := by
  cases buffers with
  | arrayToArray src dst => rfl
  | arrayToBuffer src dst =>
    show dst + o = dst + size * (o / size) + o % size
    rw [Nat.add_assoc, Nat.div_add_mod]
  | bufferToArray src dst => rfl

/-- The buffers begin where vectors do. -/
def AlignedBuffers (buffers : Buffers) (size number : Nat) : Prop :=
  ∀ i < number, srcOf size i buffers % vectorSize = 0 ∧ dstOf size i buffers % vectorSize = 0

/-- On one side, no buffer begins where another one ends. -/
def Apart (buffers : Buffers) (size number : Nat) : Prop :=
  (∀ i < number, ∀ j < number, srcOf size i buffers + size ≠ srcOf size j buffers) ∨
    ∀ i < number, ∀ j < number, dstOf size i buffers + size ≠ dstOf size j buffers

theorem unit_div_mod {m q : Nat} (hq : q < m) :
    (i * m + q) * 32 / (32 * m) = i ∧ (i * m + q) * 32 % (32 * m) = 32 * q := by
  have hm : 0 < m := Nat.zero_lt_of_lt hq
  rw [Nat.mul_comm (i * m + q) 32, Nat.mul_div_mul_left _ _ (by decide), Nat.mul_mod_mul_left,
    Nat.add_comm, Nat.add_mul_div_right _ _ hm, Nat.div_eq_of_lt hq, Nat.zero_add,
    Nat.add_mul_mod_self_right, Nat.mod_eq_of_lt hq]
  exact ⟨rfl, rfl⟩

theorem unitsFit_iff_aligned (hsize : 0 < size) (hdvd : unitSize ∣ size) :
    UnitsFit buffers size number ↔ AlignedBuffers buffers size number := by
  obtain ⟨m, rfl⟩ := hdvd
  rw [unitSize_eq] at hsize ⊢
  have hm : 0 < m := by omega
  have hunits : 32 * m * number / 32 = m * number := by
    rw [Nat.mul_assoc, Nat.mul_div_cancel_left _ (by decide)]
  have hhost : ∀ i q, q < m → hostOf (32 * m) ((i * m + q) * 32) buffers =
      srcOf (32 * m) i buffers + 32 * q := by
    intro i q hq
    rw [hostOf_eq, (unit_div_mod hq).1, (unit_div_mod hq).2]
  have hdevice : ∀ i q, q < m → deviceOf (32 * m) ((i * m + q) * 32) buffers =
      dstOf (32 * m) i buffers + 32 * q := by
    intro i q hq
    rw [deviceOf_eq, (unit_div_mod hq).1, (unit_div_mod hq).2]
  have hlt : ∀ i < number, ∀ q < m, i * m + q < m * number := by
    intro i hi q hq
    have hle := Nat.mul_le_mul_left m hi
    rw [Nat.mul_succ, Nat.mul_comm m i] at hle
    omega
  constructor
  · intro hfit i hi
    have hunit := hfit.aligned (i * m + 0) (by
      rw [unitSize_eq, hunits]
      exact hlt i hi 0 hm)
    rw [unitSize_eq, hhost i 0 hm, hdevice i 0 hm] at hunit
    exact hunit
  · intro haligned
    refine ⟨fun unit hunit => ?_, fun i hi k hk => ?_⟩
    · rw [unitSize_eq, hunits] at hunit
      have hi : unit / m < number := Nat.div_lt_of_lt_mul hunit
      obtain ⟨hsrc, hdst⟩ := haligned (unit / m) hi
      have hsplit : unit = unit / m * m + unit % m := by
        rw [Nat.mul_comm]
        exact (Nat.div_add_mod unit m).symm
      rw [unitSize_eq, hsplit, hhost _ _ (Nat.mod_lt _ hm), hdevice _ _ (Nat.mod_lt _ hm)]
      rw [vectorSize_eq] at hsrc hdst ⊢
      omega
    · have hq : k / 32 < m := by omega
      refine ⟨i * m + k / 32, ?_, k % 32, Nat.mod_lt _ (by decide), ?_, ?_⟩
      · rw [unitSize_eq, hunits]
        exact hlt i hi _ hq
      · rw [unitSize_eq, hhost i _ hq]
        omega
      · rw [unitSize_eq, hdevice i _ hq]
        omega

theorem touch (base : Nat → Nat) (hsize : 0 < size) (hnumber : 0 < number)
    (hdisjoint : ∀ i < number, ∀ j < number, ∀ k < size, ∀ l < size, base i + k = base j + l → i = j)
    (hi : i < number) (hk : k < size) (heq : base 0 + size = base i + k) : base 0 + size = base i := by
  cases k with
  | zero => exact heq
  | succ k =>
    have hbefore : base 0 + (size - 1) = base i + k := by omega
    have hzero := hdisjoint 0 hnumber i hi (size - 1) (by omega) k (Nat.lt_of_succ_lt hk) hbefore
    rw [← hzero] at heq
    omega

theorem UnitsFit.dvd (hfit : UnitsFit buffers size number) (hd : DisjointBuffers buffers size number)
    (hsize : 0 < size) (hnumber : 0 < number) (hapart : Apart buffers size number) :
    unitSize ∣ size := by
  obtain ⟨hzero, place, hplace, hall⟩ := hfit.bytes hd
  rw [unitSize_eq]
  by_contra hnot
  have hmod : size % 32 ≠ 0 := fun h => hnot (Nat.dvd_of_mod_eq_zero h)
  have htwo : 2 ≤ number := by
    by_contra hone
    have hnumber' : number = 1 := by omega
    rw [hnumber', Nat.mul_one] at hzero
    exact hmod hzero
  have hlarge := Nat.mul_le_mul_left size htwo
  have hunit : size / 32 < size * number / 32 := by omega
  have hstart : size / 32 * 32 < size := by omega
  obtain ⟨p, hp⟩ := hall size hunit
  obtain ⟨_, hsrc, hdst⟩ := hplace p
  rw [hp] at hsrc hdst
  have hend : size / 32 * 32 + size % 32 = size := by omega
  have hread : readAt buffers size size = srcOf size 0 buffers + size := by
    unfold readAt
    rw [hostOf_eq, Nat.div_eq_of_lt hstart, Nat.mod_eq_of_lt hstart, Nat.add_assoc, hend]
  have hwritten : writtenAt buffers size size = dstOf size 0 buffers + size := by
    unfold writtenAt
    rw [deviceOf_eq, Nat.div_eq_of_lt hstart, Nat.mod_eq_of_lt hstart, Nat.add_assoc, hend]
  rcases hapart with hsrcApart | hdstApart
  · exact hsrcApart 0 hnumber p.1 p.1.isLt (touch (fun i => srcOf size i buffers) hsize hnumber
      hd.src p.1.isLt p.2.isLt (hread.symm.trans hsrc))
  · exact hdstApart 0 hnumber p.1 p.1.isLt (touch (fun i => dstOf size i buffers) hsize hnumber
      hd.dst p.1.isLt p.2.isLt (hwritten.symm.trans hdst))

/-- For all buffers: the kernel copies like the plain stream if and only if the units fit. A size that is
a number of units only needs aligned buffers, and buffers that do not touch need such a size. -/
theorem copiesLikeStream_iff (hsize : 1 ≤ size) (hnumber : 1 ≤ number)
    (hd : DisjointBuffers buffers size number) :
    (CopiesLikeStream buffers size number ↔ UnitsFit buffers size number) ∧
      (unitSize ∣ size → (UnitsFit buffers size number ↔ AlignedBuffers buffers size number)) ∧
      (Apart buffers size number → UnitsFit buffers size number → unitSize ∣ size) :=
  ⟨⟨fun hok => hok.unitsFit hd, fun hfit => hfit.copiesLikeStream hd⟩, unitsFit_iff_aligned hsize,
    fun hapart hfit => hfit.dvd hd hsize hnumber hapart⟩

/-- Two buffers of 64 bytes are gathered into one. -/
theorem copiesLikeStream_gather : CopiesLikeStream (.arrayToBuffer (fun i => 128 * i) 4096) 64 2 := by
  have hd : DisjointBuffers (.arrayToBuffer (fun i => 128 * i) 4096) 64 2 := by
    refine ⟨fun i _ j _ k hk l hl heq => ?_, fun i _ j _ k hk l hl heq => ?_,
      fun i hi j _ k hk l _ heq => ?_⟩
    · have heq' : 128 * i + k = 128 * j + l := heq
      omega
    · have heq' : 4096 + 64 * i + k = 4096 + 64 * j + l := heq
      omega
    · have heq' : 128 * i + k = 4096 + 64 * j + l := heq
      omega
  obtain ⟨hiff, hunits, _⟩ := copiesLikeStream_iff (by decide) (by decide) hd
  refine hiff.mpr ((hunits ⟨2, rfl⟩).mpr fun i _ => ?_)
  have hsrc : 128 * i % 16 = 0 := by omega
  have hdst : (4096 + 64 * i) % 16 = 0 := by omega
  exact ⟨hsrc, hdst⟩

/-- A buffer of 48 bytes loses its last 16. -/
theorem not_copiesLikeStream_tail :
    DisjointBuffers (.arrayToBuffer (fun _ => 0) 4096) 48 1 ∧
      ¬CopiesLikeStream (.arrayToBuffer (fun _ => 0) 4096) 48 1 := by
  have hd : DisjointBuffers (.arrayToBuffer (fun _ => 0) 4096) 48 1 := by
    refine ⟨fun i hi j hj _ _ _ _ _ => by omega, fun i hi j hj _ _ _ _ _ => by omega,
      fun i _ j _ k hk l _ heq => ?_⟩
    have heq' : 0 + k = 4096 + 48 * j + l := heq
    omega
  refine ⟨hd, fun hok => ?_⟩
  obtain ⟨hzero, _⟩ := (hok.unitsFit hd).bytes hd
  exact absurd hzero (by decide)

end UnifiedCache.Trans
