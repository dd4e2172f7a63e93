import UnifiedCache.Esa.Proofs.SwapAreaProofs
import UnifiedCache.Kvstar.Proofs.SwapAreaProofs

/-!
# Swap areas over any number of rounds

ESA and KVStar keep what they have loaded in a record, and load only what has changed. In both the
record stays true.
-/

open Lib.SwapArea

namespace UnifiedCache.Sparse

/-- **The swap area holds what is recorded**, for ESA after a prefill and for KVStar, over the same
distinct blocks and after any number of rounds: the next round does not raise, its record pairs the blocks
with the hashes of the round one to one, what is loaded are the pairs that are new, and after the wait
every block has the contents of its hash. -/
theorem swapAreas_hold (Q η β : Type) [DecidableEq η] :
    (∀ (cfg : Esa.Config) (outside : Esa.Outside Q η β) (orders : Esa.SetOrders η)
      (freeSlots : List Nat) (isMla : Bool) (kCache : Nat → β) (vCache : Option (Nat → β))
      (hashes : List η) (ms : List (Esa.ReqMeta η × Q)) (m : Esa.ReqMeta η) (query : Q)
      (s₀ s : Esa.State Q η β) (blocks : List Nat) (m' : Esa.ReqMeta η) (task : Esa.RetrievalTask Q)
      (orders' : Esa.SetOrders η), Esa.Prefills hashes ms m →
      getSparseRange cfg.initWindowSz cfg.localWindowSz m.numPromptTokens cfg.blockSize =
        hashes.length → freeSlots.Nodup →
      Esa.prefill cfg outside orders freeSlots (Esa.State.new isMla kCache vCache)
        (ms ++ [(m, query)]) = some s₀ → blocks.Nodup → Esa.Rounds cfg outside blocks s₀ s →
      Esa.Retrieves cfg outside blocks s m' task →
      ∃ hashes' record loads, Esa.retrievedHashes s (outside.retrieve task) = some hashes' ∧
        Esa.waitRetrievalAndStartLoad cfg outside s m' orders' =
          some (Esa.startLoad s record loads) ∧
        Round blocks hashes' s.preTopkBlockHashes record loads ∧
        (Esa.waitTransferTaskDone outside (Esa.startLoad s record loads)).preTopkBlockHashes = record ∧
        Esa.Settled outside (Esa.waitTransferTaskDone outside (Esa.startLoad s record loads))) ∧
    (∀ (cfg : Kvstar.Config) (outside : Kvstar.Outside Q η β) (kCache vCache : Nat → β)
      (s : Kvstar.State Q η β) (blocks : List Nat) (loadStep n : Nat), Kvstar.RetrieveOk outside →
      blocks.Nodup → Kvstar.Rounds cfg outside blocks (Kvstar.State.new kCache vCache) s →
      Kvstar.Retrieves cfg outside blocks loadStep n s →
      ∃ fetched hashes record loads,
        Kvstar.fetchRetrieveResult cfg outside s (Kvstar.needRetrieveRecord cfg loadStep) =
          some fetched ∧
        fetched.stepGroupRetrieveResult (Kvstar.needRetrieveRecord cfg loadStep) = some hashes ∧
        Kvstar.loadRetrieveResultAsync cfg outside s loadStep blocks =
          some (Kvstar.startLoad fetched record loads) ∧
        Round blocks hashes s.preSwapAreaBlockHashes record loads ∧
        (Kvstar.waitForBlkTransferTaskDone outside
          (Kvstar.startLoad fetched record loads)).preSwapAreaBlockHashes = record ∧
        Kvstar.Settled outside (Kvstar.waitForBlkTransferTaskDone outside
          (Kvstar.startLoad fetched record loads))) := by
  constructor
  · intro cfg outside orders freeSlots isMla kCache vCache hashes ms m query s₀ s blocks m' task orders'
      hprefills hrange hfree hprefill hblocks hrounds hretrieves
    rw [Esa.prefill_eq outside orders query hprefills rfl (fun h => absurd h Bool.false_ne_true) rfl rfl
      hrange hfree] at hprefill
    split_ifs at hprefill
    obtain rfl := Option.some.inj hprefill
    obtain ⟨hstart, hstartSlots⟩ : Esa.Settled outside (Esa.prefilled cfg
          (Esa.State.new isMla kCache vCache) hashes m hashes.length freeSlots) ∧
        Esa.SlotsHashed (Esa.prefilled cfg (Esa.State.new isMla kCache vCache : Esa.State Q η β) hashes m
          hashes.length freeSlots) :=
      Esa.prefilled_ready outside rfl hfree rfl rfl rfl
    obtain ⟨hsettled, hslots⟩ := hrounds.settled hblocks hstart hstartSlots
    exact hsettled.round hslots hblocks hretrieves orders'
  · intro cfg outside kCache vCache s blocks loadStep n hretrieve hblocks hrounds hretrieves
    have hstart : Kvstar.Settled outside (Kvstar.State.new kCache vCache : Kvstar.State Q η β) :=
      ⟨List.nodup_nil, List.nodup_nil, holds_nil, holds_nil, rfl⟩
    exact (hrounds.settled hretrieve hblocks hstart).round hretrieve hblocks hretrieves

/-! ## Two rounds -/

/-- ESA with blocks of one token, of which one of two is loaded. -/
def esaOne : Esa.Config :=
  ⟨1, 1, 1, 1 / 2, 3, 1, Nat.one_pos, Esa.half_nonneg, Esa.half_le_one, Esa.stride_pos⟩

/-- The retrieval gives two of four slots, which depend on the query. -/
def esaOutside : Esa.Outside Bool Nat Nat :=
  ⟨id, id, id, fun task => if task.query then [9, 7] else [7, 8]⟩

def esaOrders : Esa.SetOrders Nat := ⟨id, id, List.Perm.refl, List.Perm.refl⟩

/-- The last chunk of a prompt of six tokens. -/
def esaChunk : Esa.ReqMeta Nat := ⟨6, 0, 6, 0, [1, 2, 3, 4, 5, 6], [10, 11, 12, 13]⟩

/-- The request in decoding, where blocks 6 and 7 are the swap area. -/
def esaDecode : Esa.ReqMeta Nat := ⟨6, 1, 1, 6, [5, 6, 7, 8], [10, 11, 12, 13]⟩

/-- The prompt has been read, and the first retrieval has been started. -/
def esaPrefilled : Esa.State Bool Nat Nat :=
  Esa.prefilled esaOne (Esa.State.new false id (some id)) [10, 11, 12, 13] esaChunk 4 [7, 8, 9, 20]

def esaFirst : Esa.State Bool Nat Nat := Esa.startRetrieval esaOne esaPrefilled false

theorem esaPrefilled_eq :
    Esa.prefill esaOne esaOutside esaOrders [7, 8, 9, 20] (Esa.State.new false id (some id))
      ([] ++ [(esaChunk, false)]) = some esaPrefilled := by
  have hchunks : Esa.Prefills [10, 11, 12, 13] ([] : List (Esa.ReqMeta Nat × Bool)) esaChunk :=
    ⟨fun c hc => absurd hc List.not_mem_nil, rfl, rfl⟩
  have hrange : getSparseRange esaOne.initWindowSz esaOne.localWindowSz esaChunk.numPromptTokens
    esaOne.blockSize = (4 : Nat) := rfl
  rw [Esa.prefill_eq esaOutside _ false hchunks rfl (fun h => absurd h Bool.false_ne_true) rfl rfl hrange
    (by decide)]
  rfl

theorem esaFirst_loads :
    (Esa.waitRetrievalAndStartLoad esaOne esaOutside esaFirst esaDecode esaOrders).isSome = true := by
  decide +kernel

/-- The first round is over, and the second retrieval has been started. -/
def esaSecond : Esa.State Bool Nat Nat :=
  Esa.startRetrieval esaOne
    (Esa.waitTransferTaskDone esaOutside (Option.get _ esaFirst_loads)) true

theorem esaFirst_retrieves : Esa.Retrieves esaOne esaOutside [6, 7] esaFirst esaDecode
    ⟨false, esaPrefilled.slots, Esa.topK esaOne esaPrefilled.sparseRange⟩ where
  places := by decide +kernel
  started := rfl
  slots := by decide +kernel
  length := rfl
  distinct := by
    intro hashes hhashes
    have hfirst : Esa.retrievedHashes esaFirst [7, 8] = some [10, 11] := by decide +kernel
    obtain rfl := Option.some.inj (hfirst.symm.trans hhashes)
    decide

theorem esaSecond_rounds : Esa.Rounds esaOne esaOutside [6, 7] esaPrefilled esaSecond :=
  .between (.round (.between .start (Esa.between_startRetrieval _ _ _)) esaFirst_retrieves
    (Option.some_get esaFirst_loads).symm) (Esa.between_startRetrieval _ _ _)

/-- KVStar with blocks of one token. -/
def kvstarOne : Kvstar.Config := .half 1 2 Nat.one_pos Nat.two_pos

/-- The retrieval gives the first or the last blocks. -/
def kvstarOutside : Kvstar.Outside Bool Nat Nat where
  keyData := id
  valueData := id
  retrieve task := some (List.range' (if true ∈ task.queryGroup then task.numBlocks - task.topk else 0)
    task.topk)

/-- A group of one query has been submitted, for two of three blocks. -/
def kvstarSubmit (s : Kvstar.State Bool Nat Nat) (record : Kvstar.Record) (query : Bool) :
    Kvstar.State Bool Nat Nat :=
  { s with
    blockHashes := [9, 10, 11, 12]
    blkRepre := some 3
    standbyQueryGroup := fun _ => some [some query]
    doRetrieveQueryGroup := fun _ => some [query]
    stepGroupRetrieveResult := fun _ => none
    taskWaiter := fun _ => some s.retrieveTasks.length
    retrieveTasks := s.retrieveTasks ++ [⟨[query], 3, 2⟩]
    trace := s.trace ++ [.submit record (some [some query]) (some s.retrieveTasks.length)] }

theorem kvstarSubmit_ready (s : Kvstar.State Bool Nat Nat) (record : Kvstar.Record) (query : Bool) :
    Kvstar.Ready 3 2 (kvstarSubmit s record query) record :=
  .inr ⟨Nat.two_pos, s.retrieveTasks.length, ⟨[query], 3, 2⟩,
    { noResult := rfl
      waiter := rfl
      stored := List.getElem?_concat_length
      group := List.cons_ne_nil _ _
      rows := rfl
      topk := rfl
      standby := rfl
      doRetrieve := rfl
      submitted := ⟨some [some query], List.mem_append_right _ List.mem_cons_self⟩ }⟩

theorem kvstarOutside_retrieveOk : Kvstar.RetrieveOk kvstarOutside := by
  intro task _ _ hle
  refine ⟨_, rfl, List.length_range', fun i hi => ?_⟩
  rw [List.mem_range'_1] at hi
  split_ifs at hi <;> omega

def kvstarFirst : Kvstar.State Bool Nat Nat := kvstarSubmit (Kvstar.State.new id id) .prefill false

theorem kvstarFirst_loads :
    (Kvstar.loadRetrieveResultAsync kvstarOne kvstarOutside kvstarFirst 1 [6, 7]).isSome = true := by
  decide +kernel

/-- The first round is over, and the first group of decoding has been submitted. -/
def kvstarSecond : Kvstar.State Bool Nat Nat :=
  kvstarSubmit (Kvstar.waitForBlkTransferTaskDone kvstarOutside (Option.get _ kvstarFirst_loads))
    (.decode 1) true

theorem kvstarSubmit_retrieves {s : Kvstar.State Bool Nat Nat} {query : Bool} {loadStep : Nat}
    {record : Kvstar.Record} {hashes : List Nat}
    (hrecord : Kvstar.needRetrieveRecord kvstarOne loadStep = record)
    (hstep : loadStep = 1 ∨ 4 < loadStep) (hnodup : hashes.Nodup) (hlength : hashes.length = 2)
    (hresult : (Kvstar.fetchRetrieveResult kvstarOne kvstarOutside (kvstarSubmit s record query)
      record).bind (·.stepGroupRetrieveResult record) = some hashes) :
    Kvstar.Retrieves kvstarOne kvstarOutside [6, 7] loadStep 3 (kvstarSubmit s record query) where
  loads := hstep
  ready := hrecord ▸ kvstarSubmit_ready s record query
  le := by decide
  hashes _ := Nat.le_refl 4
  distinct := by
    subst hrecord
    intro s' hashes' hfetch hresult'
    rw [hfetch] at hresult
    obtain rfl := Option.some.inj (hresult.symm.trans hresult')
    exact ⟨hnodup, hlength⟩

theorem kvstarFirst_retrieves : Kvstar.Retrieves kvstarOne kvstarOutside [6, 7] 1 3 kvstarFirst :=
  kvstarSubmit_retrieves rfl (.inl rfl) (show [10, 11].Nodup by decide) rfl (by decide +kernel)

theorem kvstarSecond_rounds :
    Kvstar.Rounds kvstarOne kvstarOutside [6, 7] (Kvstar.State.new id id) kvstarSecond := by
  have hfirst : Kvstar.Rounds kvstarOne kvstarOutside [6, 7] (Kvstar.State.new id id) kvstarFirst :=
    .between .start ⟨rfl, rfl, fun _ _ => rfl, fun _ _ => rfl⟩
  exact .between (.round hfirst kvstarFirst_retrieves (Option.some_get kvstarFirst_loads).symm)
    ⟨rfl, rfl, fun _ _ => rfl, fun _ _ => rfl⟩

/-- The second round of both, over two blocks: one pair is kept, and the other block is loaded again. -/
theorem swapAreas_hold_one :
    (∃ record loads, Esa.retrievedHashes esaSecond [9, 7] = some [12, 10] ∧
      Esa.waitRetrievalAndStartLoad esaOne esaOutside esaSecond esaDecode esaOrders =
        some (Esa.startLoad esaSecond record loads) ∧
      Round [6, 7] [12, 10] [(6, 10), (7, 11)] record loads) ∧
    ∃ fetched record loads,
      Kvstar.fetchRetrieveResult kvstarOne kvstarOutside kvstarSecond (.decode 1) = some fetched ∧
      fetched.stepGroupRetrieveResult (.decode 1) = some [11, 12] ∧
      Kvstar.loadRetrieveResultAsync kvstarOne kvstarOutside kvstarSecond 5 [6, 7] =
        some (Kvstar.startLoad fetched record loads) ∧
      Round [6, 7] [11, 12] [(6, 10), (7, 11)] record loads := by
  constructor
  · have hsecond : Esa.retrievedHashes esaSecond [9, 7] = some [12, 10] := by decide +kernel
    have hrecord : esaSecond.preTopkBlockHashes = [(6, 10), (7, 11)] := by decide +kernel
    obtain ⟨hashes, record, loads, hhashes, hrun, hround, -, -⟩ := (swapAreas_hold Bool Nat Nat).1
      esaOne esaOutside _ _ _ _ _ _ [] esaChunk false _ esaSecond [6, 7] esaDecode
      ⟨true, _, _⟩ esaOrders
      ⟨fun c hc => absurd hc List.not_mem_nil, rfl, rfl⟩ rfl (by decide) esaPrefilled_eq (by decide)
      esaSecond_rounds
      { places := by decide +kernel
        started := rfl
        slots := by decide +kernel
        length := rfl
        distinct := by
          intro hashes hhashes
          obtain rfl := Option.some.inj (hsecond.symm.trans hhashes)
          decide }
    obtain rfl := Option.some.inj (hsecond.symm.trans hhashes)
    exact ⟨record, loads, hsecond, hrun, hrecord ▸ hround⟩
  · have hsecond : (Kvstar.fetchRetrieveResult kvstarOne kvstarOutside kvstarSecond (.decode 1)).bind
        (·.stepGroupRetrieveResult (.decode 1)) = some [11, 12] := by decide +kernel
    have hrecord : kvstarSecond.preSwapAreaBlockHashes = [(6, 10), (7, 11)] := by decide +kernel
    obtain ⟨fetched, hashes, record, loads, hfetch, hresult, hrun, hround, -, -⟩ :=
      (swapAreas_hold Bool Nat Nat).2 kvstarOne kvstarOutside id id kvstarSecond [6, 7] 5 3
        kvstarOutside_retrieveOk (by decide) kvstarSecond_rounds
        (kvstarSubmit_retrieves rfl (.inr (by decide)) (by decide) rfl hsecond)
    change Kvstar.fetchRetrieveResult kvstarOne kvstarOutside kvstarSecond (.decode 1) = _ at hfetch
    rw [hfetch] at hsecond
    obtain rfl := Option.some.inj (hsecond.symm.trans hresult)
    exact ⟨fetched, record, loads, hfetch, hresult, hrun, hrecord ▸ hround⟩

end UnifiedCache.Sparse
