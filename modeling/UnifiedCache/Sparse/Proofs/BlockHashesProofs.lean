import UnifiedCache.Connector.Proofs.DispatchProofs
import UnifiedCache.Connector.Proofs.KeysProofs
import UnifiedCache.Sparse.BlockHashes

/-!
# Proofs: under which keys the sparse methods load

ESA computes the chained hashes of the connector for the blocks between its two windows, and rewrites
them as the worker of its rank does (`esa_keys`). KVStar chains to another seed and keeps strings, GSA
keeps nothing: neither has a single key of the connector (`kvstar_gsa_keys_iff`).
-/

open Function Lib UnifiedCache.Connector

namespace UnifiedCache.Sparse

variable {vc : VllmConfig} {tokens : List Token} {rank : Nat} {h key : Bytes}

/-! ## Calls -/

section Memo

variable {β : Type} {f : ReqId → β} {g : (ReqId → Option β) → ReqId → ReqId → Option β}

theorem foldl_memo (hsome : ∀ s id, (s id).isSome → g s id = s)
    (hnone : ∀ s id, s id = none → g s id = update s id (some (f id)))
    {calls : List ReqId} {s : ReqId → Option β} (hs : ∀ id, s id = none ∨ s id = some (f id))
    {id : ReqId} (hid : id ∈ calls ∨ s id = some (f id)) : calls.foldl g s id = some (f id) := by
  induction calls generalizing s with
  | nil => exact hid.resolve_left List.not_mem_nil
  | cons head calls ih =>
    rw [List.foldl_cons]
    rcases hs head with hhead | hhead
    · rw [hnone s head hhead]
      refine ih (fun id' => ?_) ?_
      · by_cases heq : id' = head
        · subst heq
          exact .inr (update_self _ _ _)
        · rw [update_of_ne heq]
          exact hs id'
      · by_cases heq : id = head
        · subst heq
          exact .inr (update_self _ _ _)
        · rw [update_of_ne heq]
          exact hid.imp_left fun hmem => (List.mem_cons.mp hmem).resolve_left heq
    · rw [hsome s head (by rw [hhead]; rfl)]
      refine ih hs ?_
      rcases hid with hmem | hid
      · rcases List.mem_cons.mp hmem with rfl | hmem
        · exact .inr hhead
        · exact .inl hmem
      · exact .inr hid

end Memo

/-! ## Keys of the connector -/

/-- A worker of the rank. -/
def VllmConfig.directWorker (vc : VllmConfig) (rank : Nat) : WorkerConfig Bytes where
  kvCaches := KvLayer.small
  tpRank := rank
  tpSize := vc.tpSize
  isMla := vc.isMla
  requestHasher := vc.requestHasher (rank % vc.tpSize)
  names_nodup := KvLayer.small_nodup
  kvCaches_ne := KvLayer.small_ne

theorem dumpKey_keyOf (hrank : rank < vc.tpSize) : vc.DumpKey rank h (vc.keyOf rank h) := by
  have hlt : vc.dumpRank rank < vc.tpSize := by
    unfold VllmConfig.dumpRank
    split_ifs <;> omega
  refine ⟨⟨vc.directWorker (vc.dumpRank rank), ⟨rfl, rfl, rfl, fun _ => hlt, nofun⟩, rfl⟩, ?_, ?_⟩
  · rintro own ⟨hown, hdump⟩ e l hh hl
    refine DumpsUnder.of_dumps hown (hown.dumps_iff.mpr fun hmla => ?_) hh hl
    rw [hdump, VllmConfig.dumpRank, if_pos hmla]
    exact Nat.zero_mod _
  · rintro own ⟨hown, hdump⟩ e l k hk
    rw [(hk.key_eq hown).2, hown.storeKey_eq, hdump, Nat.mod_eq_of_lt hlt]
    unfold VllmConfig.keyOf VllmConfig.dumpRank ModelConfig.rankKey
    cases hmla : vc.isMla with
    | true => simp
    | false =>
      simp only [Bool.false_eq_true, if_false, false_or]
      rfl

theorem ucmBlockIds_getElem? (vc : VllmConfig) (tokens : List Token) (j : Nat) :
    (vc.ucmBlockIds tokens)[j]? =
      if (j + 1) * vc.blockSize ≤ tokens.length then some (blockHash vc.connector tokens j)
      else none :=
  getElem?_generateHash vc.connector tokens j

/-! ## ESA -/

section Esa

variable {esa : Esa}

theorem full_of_lt {bs i : Nat} (hbs : 0 < bs) (hi : i + 1 < (tokens.length + bs - 1) / bs) :
    (i + 1) * bs ≤ tokens.length := by
  have hmul := (Nat.le_div_iff_mul_le hbs).mp hi
  rw [Nat.succ_mul] at hmul
  omega

theorem esa_hashLoop_local {starts : List Nat} {parent : Bytes} {hashes : List Bytes}
    (hstarts : ∀ start ∈ starts, ((start / esa.vc.blockSize : Nat) : Int) ≥
      ((tokens.length + esa.vc.blockSize - 1) / esa.vc.blockSize : Nat) - esa.localWindowSz) :
    esa.hashLoop tokens starts parent hashes = hashes := by
  induction starts with
  | nil => rfl
  | cons start starts ih =>
    rw [Esa.hashLoop]
    dsimp only
    rw [if_pos (hstarts start List.mem_cons_self)]
    exact ih fun start' hstart' => hstarts start' (List.mem_cons_of_mem _ hstart')

/-- The loop of `set_block_hashes` from block `i` on: the chained hashes of the blocks behind the
initial window and before the local one, which ends at block `stop`. -/
theorem esa_hashLoop_eq {stop : Nat} (hlocal : 1 ≤ esa.localWindowSz)
    (hstop : stop + esa.localWindowSz =
      (tokens.length + esa.vc.blockSize - 1) / esa.vc.blockSize) (k : Nat) :
    ∀ i hashes, i + k = (tokens.length + esa.vc.blockSize - 1) / esa.vc.blockSize →
      esa.hashLoop tokens ((List.range' i k).map (· * esa.vc.blockSize))
        (parentHash esa.vc.connector tokens i) hashes =
      hashes ++ ((List.range' i (stop - i)).filter fun j => esa.initWindowSz ≤ j).map
        (blockHash esa.vc.connector tokens) := by
  have hbs := esa.vc.blockSize_pos
  induction k with
  | zero =>
    intro i hashes hi
    rw [show stop - i = 0 by omega]
    simp [Esa.hashLoop]
  | succ k ih =>
    intro i hashes hi
    by_cases hlt : i < stop
    · have hidx : i * esa.vc.blockSize / esa.vc.blockSize = i := Nat.mul_div_cancel _ hbs
      have hfull : ¬(slice tokens (i * esa.vc.blockSize)
          (i * esa.vc.blockSize + esa.vc.blockSize)).length < esa.vc.blockSize :=
        fun hshort => (length_block hbs).mp hshort (full_of_lt hbs (by omega))
      have hhash : esa.vc.hasher 0 (.block (.bytes (parentHash esa.vc.connector tokens i))
          (slice tokens (i * esa.vc.blockSize) (i * esa.vc.blockSize + esa.vc.blockSize))) =
          blockHash esa.vc.connector tokens i := (blockHash_eq esa.vc.connector tokens i).symm
      rw [List.range'_succ, List.map_cons, Esa.hashLoop]
      dsimp only
      rw [hidx, if_neg (by omega), if_neg hfull, hhash]
      have hrest := ih (i + 1)
        (if i ≥ esa.initWindowSz then hashes ++ [blockHash esa.vc.connector tokens i] else hashes)
        (by omega)
      rw [show stop - i = stop - (i + 1) + 1 by omega, List.range'_succ, List.filter_cons]
      refine hrest.trans ?_
      by_cases hinit : esa.initWindowSz ≤ i
      · simp [hinit]
      · simp [hinit]
    · rw [show stop - i = 0 by omega, esa_hashLoop_local]
      · simp
      · intro start hstart
        obtain ⟨j, hj, rfl⟩ := List.mem_map.mp hstart
        rw [List.mem_range'_1] at hj
        rw [Nat.mul_div_cancel _ hbs]
        omega

theorem esa_hashes {stop : Nat} (hlocal : 1 ≤ esa.localWindowSz) (hinit : esa.initWindowSz ≤ stop)
    (hstop : stop + esa.localWindowSz =
      (tokens.length + esa.vc.blockSize - 1) / esa.vc.blockSize) :
    esa.hashLoop tokens (esa.vc.starts tokens) (esa.vc.hasher 0 (.str VllmConfig.seedName)) [] =
      (List.range' esa.initWindowSz (stop - esa.initWindowSz)).map
        (blockHash esa.vc.connector tokens) := by
  have hloop := esa_hashLoop_eq hlocal hstop
    ((tokens.length + esa.vc.blockSize - 1) / esa.vc.blockSize) 0 [] (Nat.zero_add _)
  have hsplit : List.range' 0 stop =
      List.range' 0 esa.initWindowSz ++ List.range' esa.initWindowSz (stop - esa.initWindowSz) := by
    have happend := List.range'_append_1 (s := 0) (m := esa.initWindowSz) (n := stop - esa.initWindowSz)
    rw [Nat.zero_add, Nat.add_sub_cancel' hinit] at happend
    exact happend.symm
  have hbefore : (List.range' 0 esa.initWindowSz).filter (fun j => esa.initWindowSz ≤ j) = [] := by
    refine List.filter_eq_nil_iff.mpr fun j hj => ?_
    rw [List.mem_range'_1] at hj
    simp only [decide_eq_true_eq]
    omega
  have hbehind : (List.range' esa.initWindowSz (stop - esa.initWindowSz)).filter
      (fun j => esa.initWindowSz ≤ j) = List.range' esa.initWindowSz (stop - esa.initWindowSz) := by
    refine List.filter_eq_self.mpr fun j hj => ?_
    rw [List.mem_range'_1] at hj
    exact decide_eq_true hj.1
  unfold VllmConfig.starts
  rw [List.range_eq_range']
  refine hloop.trans ?_
  rw [List.nil_append, Nat.sub_zero, hsplit, List.filter_append, hbefore, hbehind, List.nil_append]

theorem esa_run_eq {prompt : ReqId → List Token} {calls : List ReqId} {id : ReqId} {stop : Nat}
    (hid : id ∈ calls) (hlocal : 1 ≤ esa.localWindowSz) (hinit : esa.initWindowSz ≤ stop)
    (hstop : stop + esa.localWindowSz =
      ((prompt id).length + esa.vc.blockSize - 1) / esa.vc.blockSize) :
    esa.run prompt calls id = some ((List.range' esa.initWindowSz (stop - esa.initWindowSz)).map
      fun j => esa.vc.keyOf esa.rank (blockHash esa.vc.connector (prompt id) j)) := by
  have hrun := foldl_memo (g := fun blockHashes id => esa.setBlockHashes blockHashes id (prompt id))
    (f := fun id =>
      let hashes := esa.hashLoop (prompt id) (esa.vc.starts (prompt id))
        (esa.vc.hasher 0 (.str VllmConfig.seedName)) []
      if esa.rank ≠ 0 ∧ esa.vc.isMla = false then
        hashes.map fun h => esa.vc.hasher esa.rank (.bytes h)
      else hashes)
    (s := fun _ => none) ?_ ?_ (fun _ => .inl rfl) (.inl hid)
  · refine hrun.trans ?_
    dsimp only
    rw [esa_hashes hlocal hinit hstop]
    unfold VllmConfig.keyOf
    by_cases hrewrite : esa.vc.isMla = true ∨ esa.rank = 0
    · rw [if_neg]
      · simp only [hrewrite, if_true]
      · rintro ⟨hrank, hmla⟩
        simp [hmla, hrank] at hrewrite
    · rw [if_pos]
      · simp only [hrewrite, if_false, List.map_map, Function.comp_def]
      · simpa [and_comm] using hrewrite
  · intro s id hs
    obtain ⟨hashes, hs⟩ := Option.isSome_iff_exists.mp hs
    simp only [Esa.setBlockHashes, hs]
  · intro s id hs
    simp only [Esa.setBlockHashes, hs]

/-- **ESA retrieves under the connector's keys.** For every prompt and every rank, and whatever requests
ESA has been called for: the list of a request has as many entries as blocks lie between the windows,
and its `i`th entry is the key under which the connector dumps block `init_window_sz + i` for the
rank. -/
theorem esa_keys (esa : Esa) (hrank : esa.rank < esa.vc.tpSize) (hlocal : 1 ≤ esa.localWindowSz)
    (prompt : ReqId → List Token) (calls : List ReqId) (id : ReqId) (hid : id ∈ calls)
    (hrange : 0 ≤ esa.sparseRange (prompt id)) :
    ∃ hashes, esa.run prompt calls id = some hashes ∧
      (hashes.length : Int) = esa.sparseRange (prompt id) ∧
      ∀ i < hashes.length, ∃ h key, (esa.vc.ucmBlockIds (prompt id))[esa.initWindowSz + i]? = some h ∧
        hashes[i]? = some key ∧ esa.vc.DumpKey esa.rank h key := by
  unfold Esa.sparseRange getSparseRange at hrange ⊢
  dsimp only at hrange ⊢
  obtain ⟨stop, hstop⟩ : ∃ stop, stop + esa.localWindowSz =
      ((prompt id).length + esa.vc.blockSize - 1) / esa.vc.blockSize :=
    ⟨_ - esa.localWindowSz, Nat.sub_add_cancel (by omega)⟩
  rw [← hstop] at hrange ⊢
  refine ⟨_, esa_run_eq hid hlocal (by omega) hstop, ?_, fun i hi => ?_⟩
  · rw [List.length_map, List.length_range']
    omega
  · rw [List.length_map, List.length_range'] at hi
    refine ⟨blockHash esa.vc.connector (prompt id) (esa.initWindowSz + i), _, ?_, ?_,
      dumpKey_keyOf hrank⟩
    · rw [ucmBlockIds_getElem?, if_pos (full_of_lt esa.vc.blockSize_pos (by omega))]
    · rw [List.getElem?_map, List.getElem?_range' hi, Nat.one_mul]
      rfl

/-- Seven tokens on the second of two ranks: the second and third of four blocks. -/
theorem esa_keys_seven : ∃ hashes,
    (Esa.mk .small 1 1 1).run (fun _ => [1, 2, 3, 4, 5, 6, 7]) [0] 0 = some hashes ∧
      (hashes.length : Int) = 2 ∧
      ∀ i < hashes.length, ∃ h key,
        (VllmConfig.small.ucmBlockIds [1, 2, 3, 4, 5, 6, 7])[1 + i]? = some h ∧
        hashes[i]? = some key ∧ VllmConfig.small.DumpKey 1 h key :=
  esa_keys (.mk .small 1 1 1) (by decide) (by decide) (fun _ => [1, 2, 3, 4, 5, 6, 7]) [0] 0
    (List.mem_singleton_self 0) (by decide)

end Esa

/-! ## KVStar -/

section KvStar

variable {kv : KvStar}

/-- The hash of the `j`th block in the chain of KVStar. -/
def kvBlockHash (kv : KvStar) (tokens : List Token) : Nat → Bytes
  | 0 => kv.vc.hasher 0 (.block (.int (kv.vc.computeParentBlockHash 0))
      (slice tokens 0 kv.vc.blockSize))
  | j + 1 => kv.vc.hasher 0 (.block (.bytes (kvBlockHash kv tokens j))
      (slice tokens ((j + 1) * kv.vc.blockSize) ((j + 1) * kv.vc.blockSize + kv.vc.blockSize)))

/-- What the hash of the `j`th block is chained to. -/
def kvParent (kv : KvStar) (tokens : List Token) : Nat → Parent
  | 0 => .int (kv.vc.computeParentBlockHash 0)
  | j + 1 => .bytes (kvBlockHash kv tokens j)

theorem kvBlockHash_eq (kv : KvStar) (tokens : List Token) (j : Nat) : kvBlockHash kv tokens j =
    kv.vc.hasher 0 (.block (kvParent kv tokens j)
      (slice tokens (j * kv.vc.blockSize) (j * kv.vc.blockSize + kv.vc.blockSize))) := by
  cases j with
  | zero => simp only [kvBlockHash, kvParent, Nat.zero_mul, Nat.zero_add]
  | succ j => rfl

theorem kv_hashLoop_eq (k : Nat) : ∀ i m, k ≤ m → i + k = tokens.length / kv.vc.blockSize →
    kv.hashLoop tokens ((List.range' i m).map (· * kv.vc.blockSize)) (kvParent kv tokens i) =
      (List.range' i k).map fun j => .str (bytesStr (kvBlockHash kv tokens j)) := by
  have hbs := kv.vc.blockSize_pos
  induction k with
  | zero =>
    intro i m _ hi
    cases m with
    | zero => rfl
    | succ m =>
      have hshort : (slice tokens (i * kv.vc.blockSize)
          (i * kv.vc.blockSize + kv.vc.blockSize)).length < kv.vc.blockSize := by
        rw [length_block hbs, ← Nat.le_div_iff_mul_le hbs]
        omega
      rw [List.range'_succ, List.map_cons, KvStar.hashLoop]
      dsimp only
      rw [if_pos hshort]
      rfl
  | succ k ih =>
    intro i m hm hi
    obtain ⟨m, rfl⟩ : ∃ m', m = m' + 1 := ⟨m - 1, by omega⟩
    have hfull : ¬(slice tokens (i * kv.vc.blockSize)
        (i * kv.vc.blockSize + kv.vc.blockSize)).length < kv.vc.blockSize := by
      rw [length_block hbs, ← Nat.le_div_iff_mul_le hbs]
      omega
    rw [List.range'_succ, List.map_cons, KvStar.hashLoop]
    dsimp only
    rw [if_neg hfull, ← kvBlockHash_eq, List.range'_succ, List.map_cons]
    exact congrArg _ (ih (i + 1) m (by omega) (by omega))

/-- The digest whose string stands for a block in the list of KVStar. -/
def kvDigest (kv : KvStar) (tokens : List Token) (j : Nat) : Bytes :=
  if kv.vc.isMla = true ∨ kv.rank = 0 then kvBlockHash kv tokens j
  else kv.vc.hasher kv.rank (.str (bytesStr (kvBlockHash kv tokens j)))

theorem kv_run_eq {prompt : ReqId → List Token} {calls : List ReqId} {id : ReqId}
    (hid : id ∈ calls) : kv.run prompt calls id =
      some ((List.range ((prompt id).length / kv.vc.blockSize)).map fun j =>
        .str (bytesStr (kvDigest kv (prompt id) j))) := by
  have hrun := foldl_memo (g := fun blockHashes id => kv.setBlockHashes blockHashes id (prompt id))
    (f := fun id =>
      let hashes := kv.hashLoop (prompt id) (kv.vc.starts (prompt id))
        (.int (kv.vc.computeParentBlockHash 0))
      if kv.rank ≠ 0 ∧ kv.vc.isMla = false then
        hashes.map fun h => .str (bytesStr (kv.vc.hasher kv.rank h))
      else hashes)
    (s := fun _ => none) ?_ ?_ (fun _ => .inl rfl) (.inl hid)
  · refine hrun.trans ?_
    have hblocks : (prompt id).length / kv.vc.blockSize ≤
        ((prompt id).length + kv.vc.blockSize - 1) / kv.vc.blockSize :=
      Nat.div_le_div_right (by have := kv.vc.blockSize_pos; omega)
    have hloop := kv_hashLoop_eq _ 0 _ hblocks (Nat.zero_add _)
    dsimp only
    unfold VllmConfig.starts
    rw [List.range_eq_range', List.range_eq_range']
    rw [kvParent] at hloop
    rw [hloop]
    unfold kvDigest
    by_cases hrewrite : kv.vc.isMla = true ∨ kv.rank = 0
    · rw [if_neg]
      · simp only [hrewrite, if_true]
      · rintro ⟨hrank, hmla⟩
        simp [hmla, hrank] at hrewrite
    · rw [if_pos]
      · simp only [hrewrite, if_false, List.map_map, Function.comp_def]
      · simpa [and_comm] using hrewrite
  · intro s id hs
    obtain ⟨hashes, hs⟩ := Option.isSome_iff_exists.mp hs
    simp only [KvStar.setBlockHashes, hs]
  · intro s id hs
    simp only [KvStar.setBlockHashes, hs]

end KvStar

/-! ## GSA -/

theorem gsa_hashLoop_eq {stat : GsaReqStat} (starts : List Nat) (parent : Parent)
    (hashes : List HashInput) : stat.hashLoop tokens starts parent hashes = hashes := by
  induction starts generalizing parent with
  | nil => rfl
  | cons start starts ih =>
    rw [GsaReqStat.hashLoop]
    dsimp only
    split_ifs
    · rfl
    · exact ih _

theorem gsa_run_eq {stat : GsaReqStat} {calls : Nat} (hcalls : 0 < calls) :
    stat.run tokens calls = some [] := by
  obtain ⟨n, rfl⟩ : ∃ n, calls = n + 1 := ⟨calls - 1, by omega⟩
  have hnone : stat.setBlockHashes none tokens = [] := by
    simp only [GsaReqStat.setBlockHashes, gsa_hashLoop_eq]
    split_ifs <;> rfl
  clear hcalls
  induction n with
  | zero => exact congrArg some hnone
  | succ n ih =>
    rw [GsaReqStat.run] at ih ⊢
    rw [List.range_succ, List.foldl_append, ih]
    rfl

/-! ## The keys of KVStar and GSA -/

theorem agreesWithConnector_iff {hashes : List HashInput}
    (hkeys : ∀ key, .bytes key ∉ hashes)
    (hlength : tokens.length < vc.blockSize → hashes = []) :
    AgreesWithConnector vc rank tokens hashes ↔ tokens.length < vc.blockSize := by
  constructor
  · intro hagrees
    by_contra hfull
    obtain ⟨key, hkey, -⟩ := hagrees.keys 0 (blockHash vc.connector tokens 0) (by
      rw [ucmBlockIds_getElem?, Nat.zero_add, Nat.one_mul, if_pos (Nat.le_of_not_lt hfull)])
    exact hkeys key (List.mem_of_getElem? hkey)
  · intro hshort
    rw [hlength hshort]
    refine ⟨(Nat.div_eq_of_lt hshort).symm, fun i h hi => ?_⟩
    rw [ucmBlockIds_getElem?, if_neg] at hi
    · cases hi
    · have := Nat.le_mul_of_pos_left vc.blockSize (show 0 < i + 1 by omega)
      omega

/-- **KVStar and GSA do not retrieve under the connector's keys.** For every prompt and every rank, and
whatever requests they have been called for, their lists agree with the connector if and only if the
prompt has no full block. -/
theorem kvstar_gsa_keys_iff (vc : VllmConfig) (rank : Nat) (prompt : ReqId → List Token)
    (calls : List ReqId) (id : ReqId) (hid : id ∈ calls) (gsaCalls : Nat) (hgsa : 0 < gsaCalls) :
    ∃ kvHashes gsaHashes, (KvStar.mk vc rank).run prompt calls id = some kvHashes ∧
      (GsaReqStat.mk vc rank).run (prompt id) gsaCalls = some gsaHashes ∧
      (AgreesWithConnector vc rank (prompt id) kvHashes ↔ (prompt id).length < vc.blockSize) ∧
      (AgreesWithConnector vc rank (prompt id) gsaHashes ↔ (prompt id).length < vc.blockSize) := by
  refine ⟨_, _, kv_run_eq hid, gsa_run_eq hgsa, agreesWithConnector_iff ?_ ?_,
    agreesWithConnector_iff (fun _ => List.not_mem_nil) fun _ => rfl⟩
  · intro key hkey
    obtain ⟨j, -, hj⟩ := List.mem_map.mp hkey
    cases hj
  · intro hshort
    rw [Nat.div_eq_of_lt hshort]
    rfl

/-- A prompt without a full block. -/
theorem kvstar_gsa_keys_short : ∃ kvHashes gsaHashes,
    (KvStar.mk .small 1).run (fun _ => [1]) [0] 0 = some kvHashes ∧
      (GsaReqStat.mk .small 1).run [1] 1 = some gsaHashes ∧
      AgreesWithConnector .small 1 [1] kvHashes ∧ AgreesWithConnector .small 1 [1] gsaHashes := by
  have hshort : ([1] : List Token).length < VllmConfig.small.blockSize := by decide
  obtain ⟨kvHashes, gsaHashes, hkv, hgsa, hkvkeys, hgsakeys⟩ := kvstar_gsa_keys_iff .small 1
    (fun _ => [1]) [0] 0 (List.mem_singleton_self 0) 1 Nat.one_pos
  exact ⟨kvHashes, gsaHashes, hkv, hgsa, hkvkeys.mpr hshort, hgsakeys.mpr hshort⟩

/-- A prompt of three tokens, one full block: on rank 0 KVStar has a string for it, and GSA nothing. -/
theorem kvstar_gsa_keys_differ : ∃ s,
    (KvStar.mk .small 0).run (fun _ => [1, 2, 3]) [0] 0 = some [.str s] ∧
      (GsaReqStat.mk .small 0).run [1, 2, 3] 1 = some [] ∧
      ¬AgreesWithConnector .small 0 [1, 2, 3] [.str s] ∧
      ¬AgreesWithConnector .small 0 [1, 2, 3] [] := by
  have hfull : ¬([1, 2, 3] : List Token).length < VllmConfig.small.blockSize := by decide
  refine ⟨_, (kv_run_eq (List.mem_singleton_self 0)).trans rfl, gsa_run_eq Nat.one_pos, ?_, ?_⟩
  · intro hagrees
    obtain ⟨key, hkey, -⟩ := hagrees.keys 0 _ (ucmBlockIds_getElem? _ _ 0)
    cases hkey
  · intro hagrees
    exact absurd hagrees.length (by decide)

end UnifiedCache.Sparse
