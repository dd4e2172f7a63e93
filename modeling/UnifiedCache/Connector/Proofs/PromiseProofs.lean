import UnifiedCache.Connector.Promise
import UnifiedCache.Connector.Proofs.DispatchProofs

/-!
# Proofs: what is promised is what is loaded

A call that looks the request up promises the tokens of the blocks that the store has, less the one that
is computed again (`promisedBlocks_eq`). Until the request is scheduled its metadata stays as the call
has left it (`kept_later`), and the load list is cut from exactly these blocks.
-/

open Function Lib

namespace UnifiedCache.Connector

variable {η : Type} {cfg : Config η} {tokens : List Token} {numComputedTokens : Nat}
  {lookup : Option Int} {id : ReqId} {s s₁ s₂ s₃ : State η} {out : SchedulerOutput}

theorem getNumNewMatchedTokens_eq (metas : RequestsMeta η)
    (h : ¬ReturnsEarly cfg tokens numComputedTokens) :
    (getNumNewMatchedTokens cfg metas id tokens numComputedTokens lookup).1 =
      update metas id (some
        { ucmBlockIds := generateHash cfg.requestHasher cfg.hashBlockSize tokens cfg.seed
          hbmHitBlockNum := numComputedTokens / cfg.blockSize
          totalHitBlockNum := numComputedTokens / cfg.blockSize + externalHitBlocks cfg lookup
          numTokenIds := tokens.length
          vllmBlockIds := []
          tokenProcessed :=
            (numComputedTokens / cfg.blockSize + externalHitBlocks cfg lookup) * cfg.blockSize }) := by
  obtain ⟨hthreshold, hexternal⟩ := not_or.mp h
  unfold externalBlockIds at hexternal
  unfold getNumNewMatchedTokens
  dsimp only
  rw [if_neg hthreshold, if_neg hexternal]

theorem getNumNewMatchedTokens_early (metas : RequestsMeta η)
    (h : ReturnsEarly cfg tokens numComputedTokens) :
    (getNumNewMatchedTokens cfg metas id tokens numComputedTokens lookup).1 = metas := by
  unfold getNumNewMatchedTokens
  dsimp only
  by_cases hthreshold : cfg.persistTokenThreshold > tokens.length
  · rw [if_pos hthreshold]
  · have hexternal := h.resolve_left hthreshold
    unfold externalBlockIds at hexternal
    rw [if_neg hthreshold, if_pos hexternal]

theorem numNewMatchedTokens_cases (cfg : Config η) (tokens : List Token) (numComputedTokens : Nat)
    (lookup : Option Int) :
    let ext := numNewMatchedTokens cfg tokens numComputedTokens lookup
    ReturnsEarly cfg tokens numComputedTokens ∧ ext = 0 ∨
      ¬ReturnsEarly cfg tokens numComputedTokens ∧ AllHit cfg tokens numComputedTokens lookup ∧
        ext = (externalHitBlocks cfg lookup * cfg.blockSize : Nat) - 1 ∨
      ¬ReturnsEarly cfg tokens numComputedTokens ∧ ¬AllHit cfg tokens numComputedTokens lookup ∧
        ext = (externalHitBlocks cfg lookup * cfg.blockSize : Nat) := by
  have hcast : ((externalHitBlocks cfg lookup : Int) * cfg.blockSize) =
      (externalHitBlocks cfg lookup * cfg.blockSize : Nat) := (Int.natCast_mul _ _).symm
  unfold numNewMatchedTokens
  rw [hcast]
  dsimp only
  by_cases hthreshold : cfg.persistTokenThreshold > tokens.length
  · exact .inl ⟨.inl hthreshold, if_pos hthreshold⟩
  · rw [if_neg hthreshold]
    by_cases hexternal : externalBlockIds cfg tokens numComputedTokens = []
    · exact .inl ⟨.inr hexternal, if_pos hexternal⟩
    · have hearly : ¬ReturnsEarly cfg tokens numComputedTokens := not_or.mpr ⟨hthreshold, hexternal⟩
      rw [if_neg hexternal]
      by_cases hall : AllHit cfg tokens numComputedTokens lookup
      · exact .inr (.inl ⟨hearly, hall, if_pos hall⟩)
      · exact .inr (.inr ⟨hearly, hall, if_neg hall⟩)

theorem hitBlocks_le (haligned : numComputedTokens % cfg.blockSize = 0)
    (hlt : numComputedTokens < tokens.length)
    (hlookup : LookupOk lookup (tokens.length / cfg.hashBlockSize -
      numComputedTokens / cfg.blockSize * cfg.cpWorldSize)) :
    numComputedTokens + externalHitBlocks cfg lookup * cfg.blockSize =
        (numComputedTokens / cfg.blockSize + externalHitBlocks cfg lookup) * cfg.blockSize ∧
      numComputedTokens + externalHitBlocks cfg lookup * cfg.blockSize ≤ tokens.length := by
  have hmul : numComputedTokens / cfg.blockSize * cfg.blockSize = numComputedTokens :=
    Nat.div_mul_cancel (Nat.dvd_of_mod_eq_zero haligned)
  have hsum : (numComputedTokens / cfg.blockSize + externalHitBlocks cfg lookup) * cfg.blockSize =
      numComputedTokens + externalHitBlocks cfg lookup * cfg.blockSize := by rw [Nat.add_mul, hmul]
  refine ⟨hsum.symm, ?_⟩
  have hcomputed : numComputedTokens / cfg.blockSize * cfg.cpWorldSize ≤
      tokens.length / cfg.hashBlockSize := by
    rw [Nat.le_div_iff_mul_le cfg.hashBlockSize_pos, Nat.mul_assoc,
      Nat.mul_comm cfg.cpWorldSize]
    exact Nat.le_trans (Nat.le_of_eq hmul) (Nat.le_of_lt hlt)
  have hhit : externalHitBlocks cfg lookup * cfg.cpWorldSize ≤ _ :=
    externalHitBlocks_mul_le hlookup
  rw [← hsum]
  refine Config.blocks_le ?_
  rw [Nat.add_mul]
  omega

theorem numNewMatchedTokens_bounds (haligned : numComputedTokens % cfg.blockSize = 0)
    (hlt : numComputedTokens < tokens.length)
    (hlookup : LookupOk lookup (tokens.length / cfg.hashBlockSize -
      numComputedTokens / cfg.blockSize * cfg.cpWorldSize)) :
    0 ≤ numNewMatchedTokens cfg tokens numComputedTokens lookup ∧
      numComputedTokens + numNewMatchedTokens cfg tokens numComputedTokens lookup <
        tokens.length := by
  obtain ⟨hsum, hle⟩ := hitBlocks_le haligned hlt hlookup
  rcases numNewMatchedTokens_cases cfg tokens numComputedTokens lookup with
    ⟨-, hext⟩ | ⟨-, hall, hext⟩ | ⟨-, hall, hext⟩
  · rw [hext]
    omega
  · rw [AllHit, ← hsum] at hall
    rw [hext]
    omega
  · rw [AllHit, ← hsum] at hall
    rw [hext]
    omega

theorem getNumNewMatchedTokens_snd (metas : RequestsMeta η) :
    (getNumNewMatchedTokens cfg metas id tokens numComputedTokens lookup).2 =
      (numNewMatchedTokens cfg tokens numComputedTokens lookup).toNat := by
  rcases numNewMatchedTokens_cases cfg tokens numComputedTokens lookup with
    ⟨hearly, hext⟩ | ⟨hearly, hall, hext⟩ | ⟨hearly, hall, hext⟩
  · rw [hext]
    unfold getNumNewMatchedTokens
    dsimp only
    by_cases hthreshold : cfg.persistTokenThreshold > tokens.length
    · rw [if_pos hthreshold]
      rfl
    · have hexternal := hearly.resolve_left hthreshold
      unfold externalBlockIds at hexternal
      rw [if_neg hthreshold, if_pos hexternal]
      rfl
  · obtain ⟨hthreshold, hexternal⟩ := not_or.mp hearly
    unfold externalBlockIds at hexternal
    unfold AllHit at hall
    unfold getNumNewMatchedTokens
    dsimp only
    rw [hext, if_neg hthreshold, if_neg hexternal, if_pos hall]
    omega
  · obtain ⟨hthreshold, hexternal⟩ := not_or.mp hearly
    unfold externalBlockIds at hexternal
    unfold AllHit at hall
    unfold getNumNewMatchedTokens
    dsimp only
    rw [hext, if_neg hthreshold, if_neg hexternal, if_neg hall, Int.toNat_natCast]

theorem promisedBlocks_eq (h : ¬ReturnsEarly cfg tokens numComputedTokens)
    (haligned : numComputedTokens % cfg.blockSize = 0) (hlt : numComputedTokens < tokens.length)
    (hlookup : LookupOk lookup (tokens.length / cfg.hashBlockSize -
      numComputedTokens / cfg.blockSize * cfg.cpWorldSize)) :
    promisedBlocks cfg tokens numComputedTokens lookup = externalHitBlocks cfg lookup := by
  obtain ⟨hsum, hle⟩ := hitBlocks_le haligned hlt hlookup
  have hpos := cfg.blockSize_pos
  -- Tokens that fall short of the blocks by less than a block fill them all.
  have hceil : ∀ x, x < cfg.blockSize → x ≤ externalHitBlocks cfg lookup * cfg.blockSize →
      (externalHitBlocks cfg lookup * cfg.blockSize - x + cfg.blockSize - 1) / cfg.blockSize =
        externalHitBlocks cfg lookup := by
    intro x hx hle
    rw [Nat.div_eq_iff hpos]
    omega
  unfold promisedBlocks
  dsimp only
  rcases numNewMatchedTokens_cases cfg tokens numComputedTokens lookup with
    ⟨hearly, -⟩ | ⟨-, hall, hext⟩ | ⟨-, hall, hext⟩
  · exact absurd hearly h
  · have hfull : numComputedTokens + externalHitBlocks cfg lookup * cfg.blockSize = tokens.length :=
      hsum.trans hall
    have hnat : ((externalHitBlocks cfg lookup * cfg.blockSize : Nat) - 1 : Int).toNat =
        externalHitBlocks cfg lookup * cfg.blockSize - 1 := by omega
    rw [hext, hnat]
    by_cases hone : cfg.blockSize = 1
    · rw [if_pos ⟨hone, hall⟩, hone]
      rw [hone] at hfull
      omega
    · rw [if_neg fun hc => hone hc.1]
      exact hceil 1 (by omega) (by omega)
  · rw [if_neg fun hc => hall hc.2, hext, Int.toNat_natCast]
    exact hceil 0 hpos (Nat.zero_le _)

/-! ## Until the request is scheduled -/

theorem kept_later (hstatus : (s₁.requests id).status = .waiting ∨
      (s₁.requests id).status = .preempted)
    (h : ((machine cfg).after s₁).Reach (NotAbout id) s₂) :
    (s₂.requests id).status = .finished ∨
      s₂.requests id = s₁.requests id ∧ s₂.requestsMeta id = s₁.requestsMeta id := by
  refine h.inv (I := fun s₂ => (s₂.requests id).status = .finished ∨
    s₂.requests id = s₁.requests id ∧ s₂.requestsMeta id = s₁.requestsMeta id) ?_ ?_
  · rintro s rfl
    exact .inr ⟨rfl, rfl⟩
  · intro s e s' hs hnot hstep
    -- The request has one of three states, none of which is that of a request in a step.
    have hcases : (s.requests id).status = .finished ∨ (s.requests id).status = .waiting ∨
        (s.requests id).status = .preempted := by
      rcases hs with hs | ⟨hs, -⟩
      · exact .inl hs
      · rw [hs]
        exact .inr hstatus
    have hset : ∀ (id' : ReqId) (r : Request) (metas : RequestsMeta η),
        (id = id' → r.status = .finished) → (id ≠ id' → metas id = s.requestsMeta id) →
        ({ s.setRequest id' r with requestsMeta := metas }.requests id).status = .finished ∨
          { s.setRequest id' r with requestsMeta := metas }.requests id = s₁.requests id ∧
            metas id = s₁.requestsMeta id := by
      intro id' r metas hr hmetas
      by_cases hid : id = id'
      · subst hid
        simp only [State.setRequest, update_self]
        exact .inl (hr rfl)
      · simp only [State.setRequest, update_of_ne hid, hmetas hid]
        exact hs
    cases e with
    | arrive id' prompt | append id' token =>
      simp only [machine, Machine.after, step] at hstep
      split_ifs at hstep with hguard
      cases hstep
      refine hset id' _ s.requestsMeta ?_ fun _ => rfl
      rintro rfl
      rw [hguard.1] at hcases
      simp at hcases
    | matched id' numComputed lookup =>
      simp only [machine, Machine.after, step] at hstep
      split_ifs at hstep with hguard
      cases hstep
      refine hset id' _ _ (fun hid => absurd hid.symm hnot) fun hid => ?_
      unfold getNumNewMatchedTokens
      dsimp only
      split_ifs
      · rfl
      · rfl
      · exact update_of_ne hid _ _
      · exact update_of_ne hid _ _
    | schedule out =>
      obtain ⟨hrequests, hmetas, -⟩ := step_schedule hstep
      obtain ⟨-, -, hother, hfinished⟩ := scheduleRequests_spec hrequests
      rw [hother id hnot, hmetas, foldl_finished, foldl_dispatchItem_of_notMem hnot]
      split_ifs with hfin
      · exact .inl (hfinished id hfin)
      · exact hs
    | preempt id' =>
      simp only [machine, Machine.after, step] at hstep
      split_ifs at hstep with hguard
      cases hstep
      refine hset id' _ s.requestsMeta ?_ fun _ => rfl
      rintro rfl
      rw [hguard] at hcases
      simp at hcases
    | finish id' =>
      simp only [machine, Machine.after, step] at hstep
      split_ifs at hstep
      cases hstep
      exact hset id' _ s.requestsMeta (fun _ => rfl) fun _ => rfl

theorem step_matched (h : (machine cfg).step s (.matched id numComputedTokens lookup) = some s₁) :
    let tokens := (s.requests id).allTokenIds
    ((s₁.requests id).status = .waiting ∨ (s₁.requests id).status = .preempted) ∧
      numComputedTokens % cfg.blockSize = 0 ∧ numComputedTokens < tokens.length ∧
      LookupOk lookup
        (tokens.length / cfg.hashBlockSize - numComputedTokens / cfg.blockSize * cfg.cpWorldSize) ∧
      (s₁.requests id).matched = some (numComputedTokens, numComputedTokens +
        (numNewMatchedTokens cfg tokens numComputedTokens lookup).toNat) ∧
      s₁.requestsMeta =
        (getNumNewMatchedTokens cfg s.requestsMeta id tokens numComputedTokens lookup).1 := by
  simp only [machine, step] at h
  split_ifs at h with hguard
  obtain ⟨hstatus, haligned, hlt, hlookup⟩ := hguard
  cases h
  refine ⟨?_, haligned, hlt, hlookup, ?_, rfl⟩
  · simp only [State.setRequest, update_self]
    exact hstatus
  · simp only [State.setRequest, update_self]
    rw [getNumNewMatchedTokens_snd]

theorem load_promised {m : RequestMeta η} {item : Item} {r r' : Request}
    (hearly : ¬ReturnsEarly cfg tokens numComputedTokens)
    (haligned : numComputedTokens % cfg.blockSize = 0) (hlt : numComputedTokens < tokens.length)
    (hlookup : LookupOk lookup (tokens.length / cfg.hashBlockSize -
      numComputedTokens / cfg.blockSize * cfg.cpWorldSize))
    (hids : m.ucmBlockIds = generateHash cfg.requestHasher cfg.hashBlockSize tokens cfg.seed)
    (hhbm : m.hbmHitBlockNum = numComputedTokens / cfg.blockSize)
    (htotal : m.totalHitBlockNum = numComputedTokens / cfg.blockSize + externalHitBlocks cfg lookup)
    (hstatus : r.status = .waiting ∨ r.status = .preempted)
    (hmatched : r.matched = some (numComputedTokens, numComputedTokens +
      (numNewMatchedTokens cfg tokens numComputedTokens lookup).toNat))
    (hr' : r.schedule cfg.blockSize item (out.numScheduledTokens item.id) = some r') :
    LoadPromised cfg tokens numComputedTokens lookup (generateItem cfg out item m).2 := by
  obtain ⟨hsum, hle⟩ := hitBlocks_le haligned hlt hlookup
  have hpos := cfg.blockSize_pos
  rcases Request.schedule_cases hr' with ⟨hkind, -, hbegin⟩ | ⟨-, hrunning, -⟩
  · obtain ⟨_, _, heq, hn, -, hblocks, -⟩ := Request.begin_spec hbegin
    rw [hmatched] at heq
    cases heq
    -- One more token than is promised is scheduled, so the table covers every hit block.
    have htable : m.totalHitBlockNum ≤ item.blocks.length := by
      have hext : externalHitBlocks cfg lookup * cfg.blockSize ≤
          (numNewMatchedTokens cfg tokens numComputedTokens lookup).toNat + 1 := by
        rcases numNewMatchedTokens_cases cfg tokens numComputedTokens lookup with
          ⟨h, -⟩ | ⟨-, -, hext⟩ | ⟨-, -, hext⟩
        · exact absurd h hearly
        · rw [hext]
          omega
        · rw [hext]
          omega
      rw [htotal]
      refine Nat.le_of_mul_le_mul_right (c := cfg.blockSize) ?_ hpos
      omega
    have hhashes : m.hbmHitBlockNum * cfg.cpWorldSize +
        externalHitBlocks cfg lookup * cfg.cpWorldSize ≤ m.ucmBlockIds.length := by
      rw [hids, hhbm, length_generateHash, ← Nat.add_mul]
      rw [Nat.le_div_iff_mul_le cfg.hashBlockSize_pos, Nat.mul_assoc,
        Nat.mul_comm cfg.cpWorldSize]
      exact Nat.le_trans (Nat.le_of_eq hsum.symm) hle
    have hload := generateItem_load cfg out item m
    rw [if_neg hkind] at hload
    have hblocks : (slice item.blocks m.hbmHitBlockNum m.totalHitBlockNum).length =
        externalHitBlocks cfg lookup := by
      rw [length_slice]
      omega
    refine ⟨?_, ?_, ?_⟩
    · rw [hload, promisedBlocks_eq hearly haligned hlt hlookup]
      exact hblocks
    · rw [hload]
      dsimp only
      rw [hblocks, length_slice, htotal, ← hhbm, Nat.add_mul]
      omega
    · rw [hload]
      dsimp only
      intro hash hhash
      rw [slice, hids, hhbm, htotal, Nat.add_mul, Nat.add_sub_cancel_left] at hhash
      cases lookup with
      | none =>
        rw [externalHitBlocks, Nat.zero_mul, List.take_zero] at hhash
        exact absurd hhash List.not_mem_nil
      | some hit =>
        have hdiv : (hit + 1).toNat / cfg.cpWorldSize * cfg.cpWorldSize ≤ (hit + 1).toNat :=
          Nat.div_mul_le_self _ _
        exact (List.take_subset_take_left _ hdiv) hhash
  · rw [hrunning] at hstatus
    simp at hstatus

/-- **The matched-token promise.** A call about a request promises a number of tokens that is never
negative and leaves a token to compute. When the call has looked the request up, the load list that is
cut when the request is next scheduled is that of the promised blocks, all hashes of which are hit; a
call that returns early promises nothing, and nothing is loaded for a request without metadata. -/
theorem matched_promise (h : (machine cfg).step s (.matched id numComputedTokens lookup) = some s₁)
    (hlater : ((machine cfg).after s₁).Reach (NotAbout id) s₂)
    (hstep : (machine cfg).step s₂ (.schedule out) = some s₃) :
    let tokens := (s.requests id).allTokenIds
    let ext := numNewMatchedTokens cfg tokens numComputedTokens lookup
    (0 ≤ ext ∧ numComputedTokens + ext < tokens.length ∧
      (s₁.requests id).matched = some (numComputedTokens, numComputedTokens + ext.toNat)) ∧
    (¬ReturnsEarly cfg tokens numComputedTokens →
      (id ∈ out.items.map Item.id → ∃ d, (id, d) ∈ s₃.dispatched) ∧
      ∀ d, (id, d) ∈ s₃.dispatched → LoadPromised cfg tokens numComputedTokens lookup d) ∧
    (ReturnsEarly cfg tokens numComputedTokens → ext = 0 ∧
      (s.requestsMeta id = none → ∀ d, (id, d) ∉ s₃.dispatched)) := by
  obtain ⟨hstatus, haligned, hlt, hlookup, hmatched, hmetas⟩ := step_matched h
  obtain ⟨hrequests, -, hdispatched⟩ := step_schedule hstep
  obtain ⟨hnodup, hitems, -, -⟩ := scheduleRequests_spec hrequests
  obtain ⟨hnonneg, hcomputed⟩ := numNewMatchedTokens_bounds haligned hlt hlookup
  -- Whoever is scheduled is not finished, so the request is as the call has left it.
  have hkept : ∀ item ∈ out.items, item.id = id →
      s₂.requests id = s₁.requests id ∧ s₂.requestsMeta id = s₁.requestsMeta id := by
    rintro item hitem rfl
    refine (kept_later hstatus hlater).resolve_left fun hfinished => ?_
    rcases Request.schedule_cases (hitems item hitem) with ⟨-, hwaiting, -⟩ | ⟨-, hrunning, -⟩
    · simp [hfinished] at hwaiting
    · simp [hfinished] at hrunning
  have hitem_of : ∀ d, (id, d) ∈ s₃.dispatched → ∃ item ∈ out.items, item.id = id ∧
      ∃ m, s₂.requestsMeta id = some m ∧ d = (generateItem cfg out item m).2 := by
    intro d hd
    rw [hdispatched] at hd
    rcases mem_foldl_dispatchItem hnodup hd with hd | ⟨item, hitem, m, hm, heq⟩
    · exact absurd hd List.not_mem_nil
    · cases heq
      exact ⟨item, hitem, rfl, m, hm, rfl⟩
  refine ⟨⟨hnonneg, hcomputed, hmatched⟩, fun hearly => ⟨fun hid => ?_, fun d hd => ?_⟩,
    fun hearly => ⟨?_, fun hnone d hd => ?_⟩⟩
  · obtain ⟨item, hitem, rfl⟩ := List.mem_map.mp hid
    have hm := (hkept item hitem rfl).2
    rw [hmetas, getNumNewMatchedTokens_eq _ hearly, update_self] at hm
    rw [hdispatched]
    exact ⟨_, mem_foldl_dispatchItem_of_meta hnodup hitem hm⟩
  · obtain ⟨item, hitem, rfl, m, hm, rfl⟩ := hitem_of d hd
    obtain ⟨hr, hm'⟩ := hkept item hitem rfl
    rw [hm', hmetas, getNumNewMatchedTokens_eq _ hearly, update_self,
      Option.some.injEq] at hm
    subst hm
    exact load_promised hearly haligned hlt hlookup rfl rfl rfl (hr ▸ hstatus) (hr ▸ hmatched)
      (hitems item hitem)
  · rcases numNewMatchedTokens_cases cfg (s.requests id).allTokenIds numComputedTokens lookup with
      ⟨-, hext⟩ | ⟨hnot, -⟩ | ⟨hnot, -⟩
    · exact hext
    · exact absurd hearly hnot
    · exact absurd hearly hnot
  · obtain ⟨item, hitem, rfl, m, hm, rfl⟩ := hitem_of d hd
    rw [(hkept item hitem rfl).2, hmetas, getNumNewMatchedTokens_early _ hearly, hnone] at hm
    cases hm

/-- Request `0` waits with its prompt. -/
def State.waiting (prompt : List Token) : State η :=
  State.start.setRequest 0 { Request.none with status := .waiting, allTokenIds := prompt }

/-- Both blocks of a prompt are hit: three tokens are promised, and both blocks are loaded. -/
theorem matched_promise_full : ∃ s₁ s₂ : State (List Token),
    (machine .small).step (.waiting [1, 2, 3, 4]) (.matched 0 0 (some 1)) = some s₁ ∧
    (machine .small).step s₁ (.schedule (startAlone 1 [10, 11])) = some s₂ ∧
    numNewMatchedTokens .small [1, 2, 3, 4] 0 (some 1) = 3 ∧
    promisedBlocks .small [1, 2, 3, 4] 0 (some 1) = 2 ∧
    (∃ d, (0, d) ∈ s₂.dispatched) ∧
    ∀ d, (0, d) ∈ s₂.dispatched → LoadPromised .small [1, 2, 3, 4] 0 (some 1) d := by
  have h₁ : ((machine .small).step (.waiting [1, 2, 3, 4]) (.matched 0 0 (some 1))).isSome := rfl
  obtain ⟨s₁, h₁⟩ := Option.isSome_iff_exists.mp h₁
  have h₂ : (((machine .small).step (.waiting [1, 2, 3, 4]) (.matched 0 0 (some 1))).bind fun s =>
    (machine .small).step s (.schedule (startAlone 1 [10, 11]))).isSome := by decide +kernel
  rw [h₁] at h₂
  obtain ⟨s₂, h₂⟩ := Option.isSome_iff_exists.mp h₂
  have hpromise := (matched_promise h₁ (.init rfl) h₂).2.1 (by unfold ReturnsEarly; decide)
  exact ⟨s₁, s₂, h₁, h₂, by decide, by decide, hpromise.1 (by decide), hpromise.2⟩

/-- With blocks of one token a prompt of one token that is hit is promised no token, and its block is
loaded. -/
theorem matched_promise_unit : ∃ s₁ s₂ : State (List Token),
    (machine .unit).step (.waiting [1]) (.matched 0 0 (some 0)) = some s₁ ∧
    (machine .unit).step s₁ (.schedule (startAlone 1 [10])) = some s₂ ∧
    numNewMatchedTokens .unit [1] 0 (some 0) = 0 ∧
    ∃ d, (0, d) ∈ s₂.dispatched ∧ d.loadBlockIds.2.length = 1 ∧
      d.loadBlockIds.2.length ≠ (0 + Config.unit.blockSize - 1) / Config.unit.blockSize := by
  have h₁ : ((machine .unit).step (.waiting [1]) (.matched 0 0 (some 0))).isSome := rfl
  obtain ⟨s₁, h₁⟩ := Option.isSome_iff_exists.mp h₁
  have h₂ : (((machine .unit).step (.waiting [1]) (.matched 0 0 (some 0))).bind fun s =>
    ((machine .unit).step s (.schedule (startAlone 1 [10]))).map fun s =>
      s.dispatched.any fun x => decide (x.1 = 0) && decide (x.2.loadBlockIds.2.length = 1)) =
        some true := by decide +kernel
  rw [h₁, Option.bind_some] at h₂
  obtain ⟨s₂, h₂, hany⟩ := Option.map_eq_some_iff.mp h₂
  obtain ⟨⟨id, d⟩, hd, hlength⟩ := List.any_eq_true.mp hany
  simp only [Bool.and_eq_true, decide_eq_true_eq] at hlength
  obtain ⟨rfl, hlength⟩ := hlength
  refine ⟨s₁, s₂, h₁, h₂, by decide, d, hd, hlength, ?_⟩
  rw [hlength]
  decide

end UnifiedCache.Connector
