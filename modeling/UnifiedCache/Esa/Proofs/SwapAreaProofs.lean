import UnifiedCache.Esa.Proofs.PrefillProofs
import UnifiedCache.Lib.SwapArea

/-!
# The swap area of ESA

`diff_two_map` makes a round of the swap area, whatever order the two sets are iterated over in, and
`wait_transfer_task_done` puts the contents in place.
-/

open Lib Lib.BlockCache Lib.Pairing Lib.SwapArea

namespace UnifiedCache.Esa

variable {Q η β : Type} {cfg : Config} {outside : Outside Q η β} {s s' : State Q η β} {m : ReqMeta η}
  {orders : SetOrders η} {blocks : List Nat} {hashes : List η}

/-! ## Differences of maps -/

theorem remove_of_mem {α : Type} [DecidableEq α] {l : List α} {x : α} (h : x ∈ l) :
    remove l x = some (l.erase x) := if_pos h

/-- What has been got so far, for the pairs that are to come. -/
structure Diff.Inv (blocks : List Nat) (hashes : List η) (acc : Diff η) (rest : List (Nat × η)) :
    Prop where
  nodup_fst : ((acc.updatedMap ++ rest).map Prod.fst).Nodup
  nodup_snd : ((acc.updatedMap ++ rest).map Prod.snd).Nodup
  places : (acc.updatedMap.map Prod.fst ++ acc.keys2Set).Perm blocks
  values : (acc.updatedMap.map Prod.snd ++ acc.values2Set).Perm hashes

theorem keepPair_spec [DecidableEq η] {map2 : List (Nat × η)} {acc : Diff η} {p : Nat × η}
    {rest : List (Nat × η)} (h : acc.Inv (map2.map Prod.fst) (map2.map Prod.snd) (p :: rest)) :
    ∃ acc', keepPair map2 acc p = some acc' ∧
      acc'.updatedMap = acc.updatedMap ++
        [p].filter (fun p => p.1 ∈ map2.map Prod.fst ∧ p.2 ∈ map2.map Prod.snd) ∧
      acc'.Inv (map2.map Prod.fst) (map2.map Prod.snd) rest := by
  obtain ⟨hfst, hsnd, hplaces, hvalues⟩ := h
  by_cases hwanted : p.1 ∈ map2.map Prod.fst ∧ p.2 ∈ map2.map Prod.snd
  · have hfst' : p.1 ∉ acc.updatedMap.map Prod.fst := by
      rw [List.map_append, List.map_cons] at hfst
      exact fun hmem => (List.nodup_append.mp hfst).2.2 _ hmem _ List.mem_cons_self rfl
    have hsnd' : p.2 ∉ acc.updatedMap.map Prod.snd := by
      rw [List.map_append, List.map_cons] at hsnd
      exact fun hmem => (List.nodup_append.mp hsnd).2.2 _ hmem _ List.mem_cons_self rfl
    have hkey : p.1 ∈ acc.keys2Set :=
      (List.mem_append.mp (hplaces.mem_iff.mpr hwanted.1)).resolve_left hfst'
    have hvalue : p.2 ∈ acc.values2Set :=
      (List.mem_append.mp (hvalues.mem_iff.mpr hwanted.2)).resolve_left hsnd'
    have hfilter : [p].filter (fun p => p.1 ∈ map2.map Prod.fst ∧ p.2 ∈ map2.map Prod.snd) = [p] :=
      List.filter_cons_of_pos (decide_eq_true hwanted)
    refine ⟨⟨acc.updatedMap ++ [p], acc.keys2Set.erase p.1, acc.values2Set.erase p.2⟩, ?_, ?_, ?_⟩
    · unfold keepPair
      rw [if_pos hwanted, remove_of_mem hkey, remove_of_mem hvalue, Dict.set_of_notMem hfst']
      rfl
    · rw [hfilter]
    · refine ⟨?_, ?_, ?_, ?_⟩
      · rwa [List.append_assoc]
      · rwa [List.append_assoc]
      · rw [List.map_append, List.append_assoc]
        exact ((List.perm_cons_erase hkey).symm.append_left _).trans hplaces
      · rw [List.map_append, List.append_assoc]
        exact ((List.perm_cons_erase hvalue).symm.append_left _).trans hvalues
  · have hfilter : [p].filter (fun p => p.1 ∈ map2.map Prod.fst ∧ p.2 ∈ map2.map Prod.snd) = [] :=
      List.filter_cons_of_neg (by rwa [decide_eq_true_eq])
    refine ⟨acc, if_neg hwanted, by rw [hfilter, List.append_nil], ?_, ?_, hplaces, hvalues⟩
    · exact hfst.sublist (((List.sublist_cons_self p rest).append_left _).map _)
    · exact hsnd.sublist (((List.sublist_cons_self p rest).append_left _).map _)

theorem foldlM_keepPair [DecidableEq η] {map2 map1 : List (Nat × η)} {acc : Diff η}
    (h : acc.Inv (map2.map Prod.fst) (map2.map Prod.snd) map1) :
    ∃ acc', map1.foldlM (keepPair map2) acc = some acc' ∧
      acc'.updatedMap = acc.updatedMap ++
        map1.filter (fun p => p.1 ∈ map2.map Prod.fst ∧ p.2 ∈ map2.map Prod.snd) ∧
      acc'.Inv (map2.map Prod.fst) (map2.map Prod.snd) [] := by
  induction map1 generalizing acc with
  | nil => exact ⟨acc, rfl, by rw [List.filter_nil, List.append_nil], h⟩
  | cons p rest ih =>
    obtain ⟨acc₁, hstep, hmap₁, h₁⟩ := keepPair_spec h
    obtain ⟨acc₂, hrest, hmap₂, h₂⟩ := ih h₁
    refine ⟨acc₂, ?_, ?_, h₂⟩
    · rw [List.foldlM_cons, hstep]
      exact hrest
    · rw [hmap₂, hmap₁, List.append_assoc, ← List.filter_append, List.singleton_append]

/-- **`diff_two_map` is a round.** -/
theorem diffTwoMap_spec [DecidableEq η] (orders : SetOrders η) {record : List (Nat × η)}
    (hfst : (record.map Prod.fst).Nodup) (hsnd : (record.map Prod.snd).Nodup)
    (hblocks : blocks.Nodup) (hhashes : hashes.Nodup) (hlength : blocks.length = hashes.length) :
    ∃ record' loads, diffTwoMap orders record (blocks.zip hashes) = some (record', loads) ∧
      Round blocks hashes record record' loads := by
  have hkeys : (blocks.zip hashes).map Prod.fst = blocks := List.map_fst_zip (Nat.le_of_eq hlength)
  have hvals : (blocks.zip hashes).map Prod.snd = hashes :=
    List.map_snd_zip (Nat.le_of_eq hlength.symm)
  have hinv : Diff.Inv ((blocks.zip hashes).map Prod.fst) ((blocks.zip hashes).map Prod.snd)
      ⟨[], (blocks.zip hashes).map Prod.fst, ((blocks.zip hashes).map Prod.snd).dedup⟩ record := by
    rw [hkeys, hvals, hhashes.dedup]
    exact ⟨hfst, hsnd, List.Perm.refl _, List.Perm.refl _⟩
  obtain ⟨acc, hloop, hkept, -, -, hplaces, hvalues⟩ := foldlM_keepPair hinv
  rw [List.nil_append] at hkept
  rw [hkeys, hvals] at hkept
  rw [hkeys] at hplaces
  rw [hvals] at hvalues
  have hsplit : Split record acc.updatedMap blocks (orders.keys acc.keys2Set) hashes
      (orders.values acc.values2Set) :=
    { mem_kept := fun p => by rw [hkept, List.mem_filter, decide_eq_true_eq]
      places := ((orders.keys_perm _).append_left _).trans hplaces
      values := ((orders.values_perm _).append_left _).trans hvalues }
  have hround := round_of_split hsplit hblocks hlength
  refine ⟨_, _, ?_, hround⟩
  unfold diffTwoMap
  rw [hloop, Option.bind_eq_bind, Option.bind_some]
  show some (((orders.keys acc.keys2Set).zip (orders.values acc.values2Set)).foldl
    (fun d p => Dict.set d p.1 p.2) acc.updatedMap, Dict.ofPairs _) = _
  rw [Dict.ofPairs_of_nodup hround.nodup, Dict.foldl_set_of_nodup (hround.nodup_fst hblocks)]

/-! ## Transfers -/

/-- What the second tensor is loaded from: the values, or the rope part of the keys. -/
def secondData (outside : Outside Q η β) (s : State Q η β) : η → β :=
  if s.isMla then outside.ropeData else outside.valueData

/-- The end of a round: the record is changed, and what it needs is on its way. -/
def startLoad [DecidableEq η] (s : State Q η β) (record loads : List (Nat × η)) : State Q η β :=
  let s := { s with preTopkBlockHashes := record }
  let s := if loads ≠ [] then launchTransferTask s loads else s
  { s with retrievalTask := none }

theorem map_zip_snd (loads : List (Nat × η)) (data : η → β) :
    ((loads.map Prod.snd).zip (loads.map Prod.fst)).map (fun p => data p.1) =
      loads.map fun p => data p.2 := by
  rw [List.zip_map', List.map_map]
  rfl

theorem map_zip_fst (loads : List (Nat × η)) :
    ((loads.map Prod.snd).zip (loads.map Prod.fst)).map Prod.snd = loads.map Prod.fst := by
  rw [List.zip_map', List.map_map]
  rfl

/-- **After the wait** the blocks have been written. -/
theorem waitTransferTaskDone_startLoad [DecidableEq η] (outside : Outside Q η β)
    (record loads : List (Nat × η)) (htasks : s.tasks = []) (hrope : s.ropeTasks = []) :
    waitTransferTaskDone outside (startLoad s record loads) = { s with
      preTopkBlockHashes := record
      retrievalTask := none
      kCache := writeAll s.kCache (loads.map Prod.fst) (loads.map fun p => outside.keyData p.2)
      vCache := s.vCache.map fun v =>
        writeAll v (loads.map Prod.fst) (loads.map fun p => secondData outside s p.2)
      launched := if loads = [] then s.launched else s.launched ++ [loads] } := by
  by_cases hloads : loads = []
  · subst hloads
    unfold waitTransferTaskDone startLoad
    simp only [ne_eq, not_true_eq_false, if_false, if_true, htasks, hrope, List.foldl_nil]
    cases s.vCache <;> rfl
  · unfold startLoad
    dsimp only
    rw [if_pos hloads, if_neg hloads]
    unfold waitTransferTaskDone launchTransferTask secondData
    cases hmla : s.isMla <;> cases hcache : s.vCache <;>
      simp [htasks, hrope, Dict.set, waitTask, map_zip_snd, map_zip_fst]

/-! ## Rounds -/

/-- The record matches the caches, and nothing is in flight. -/
structure Settled (outside : Outside Q η β) (s : State Q η β) : Prop where
  nodup_fst : (s.preTopkBlockHashes.map Prod.fst).Nodup
  nodup_snd : (s.preTopkBlockHashes.map Prod.snd).Nodup
  first : Holds outside.keyData s.preTopkBlockHashes s.kCache
  second : ∀ v, s.vCache = some v → Holds (secondData outside s) s.preTopkBlockHashes v
  tasks : s.tasks = []
  ropeTasks : s.ropeTasks = []

/-- Every slot is the slot of a block with a hash. -/
def SlotsHashed (s : State Q η β) : Prop :=
  ∃ hashes, s.blockHashes = some hashes ∧
    ∀ slot ∈ s.slots, ∃ i, Dict.get? s.slotsToRelativeIndexes slot = some i ∧ i < hashes.length

/-- The hashes of the blocks that have these slots. -/
def retrievedHashes (s : State Q η β) (slots : List Nat) : Option (List η) := do
  let relBlockIds ← slots.mapM (Dict.get? s.slotsToRelativeIndexes)
  let hashes ← s.blockHashes
  relBlockIds.mapM fun i => hashes[i]?

theorem SlotsHashed.exists_retrievedHashes (h : SlotsHashed s) {slots : List Nat}
    (hslots : slots ⊆ s.slots) :
    ∃ hashes, retrievedHashes s slots = some hashes ∧ hashes.length = slots.length := by
  obtain ⟨all, hall, hslot⟩ := h
  obtain ⟨relBlockIds, hrel, hlength, hlt⟩ := Dict.exists_mapM fun x hx => hslot x (hslots hx)
  obtain ⟨hashes, hhashes, hlength', -⟩ :
      ∃ hashes, (relBlockIds.mapM fun i => all[i]?) = some hashes ∧
        hashes.length = relBlockIds.length ∧ ∀ h ∈ hashes, h ∈ all := by
    refine Dict.exists_mapM fun i hi => ?_
    have hi := hlt i hi
    exact ⟨all[i], List.getElem?_eq_getElem hi, List.getElem_mem hi⟩
  refine ⟨hashes, ?_, hlength'.trans hlength⟩
  unfold retrievedHashes
  rw [hrel, hall]
  exact hhashes

theorem waitRetrievalAndStartLoad_eq [DecidableEq η] {task : RetrievalTask Q}
    {record loads : List (Nat × η)} (htask : s.retrievalTask = some task)
    (hhashes : retrievedHashes s (outside.retrieve task) = some hashes)
    (hdiff : diffTwoMap orders s.preTopkBlockHashes
      (Dict.ofPairs ((swapBlocks cfg s m).zip hashes)) = some (record, loads)) :
    waitRetrievalAndStartLoad cfg outside s m orders = some (startLoad s record loads) := by
  unfold retrievedHashes at hhashes
  obtain ⟨relBlockIds, hrel, hhashes⟩ := Option.bind_eq_some_iff.mp hhashes
  obtain ⟨all, hall, hhashes⟩ := Option.bind_eq_some_iff.mp hhashes
  refine Option.bind_eq_some_iff.mpr ⟨task, htask, ?_⟩
  refine Option.bind_eq_some_iff.mpr ⟨relBlockIds, hrel, ?_⟩
  refine Option.bind_eq_some_iff.mpr ⟨all, hall, ?_⟩
  refine Option.bind_eq_some_iff.mpr ⟨hashes, hhashes, ?_⟩
  exact Option.bind_eq_some_iff.mpr ⟨(record, loads), hdiff, rfl⟩

/-- What the retrieval has to give for a round over these blocks: slots of the request, as many as there
are blocks, whose blocks have distinct hashes. -/
structure Retrieves (cfg : Config) (outside : Outside Q η β) (blocks : List Nat) (s : State Q η β)
    (m : ReqMeta η) (task : RetrievalTask Q) : Prop where
  places : swapBlocks cfg s m = blocks
  started : s.retrievalTask = some task
  slots : outside.retrieve task ⊆ s.slots
  length : (outside.retrieve task).length = blocks.length
  distinct : ∀ hashes, retrievedHashes s (outside.retrieve task) = some hashes → hashes.Nodup

/-- **A round**: it does not raise, and the record matches the caches after the wait. -/
theorem Settled.round [DecidableEq η] {task : RetrievalTask Q} (h : Settled outside s)
    (hslots : SlotsHashed s) (hblocks : blocks.Nodup)
    (hretrieves : Retrieves cfg outside blocks s m task) (orders : SetOrders η) :
    ∃ hashes record loads, retrievedHashes s (outside.retrieve task) = some hashes ∧
      waitRetrievalAndStartLoad cfg outside s m orders = some (startLoad s record loads) ∧
      Round blocks hashes s.preTopkBlockHashes record loads ∧
      (waitTransferTaskDone outside (startLoad s record loads)).preTopkBlockHashes = record ∧
      Settled outside (waitTransferTaskDone outside (startLoad s record loads)) := by
  obtain ⟨hashes, hhashes, hlength⟩ := hslots.exists_retrievedHashes hretrieves.slots
  rw [hretrieves.length] at hlength
  have hdistinct := hretrieves.distinct hashes hhashes
  obtain ⟨record, loads, hdiff, hround⟩ := diffTwoMap_spec orders h.nodup_fst h.nodup_snd hblocks
    hdistinct hlength.symm
  have hmap : Dict.ofPairs ((swapBlocks cfg s m).zip hashes) = blocks.zip hashes := by
    rw [hretrieves.places]
    refine Dict.ofPairs_of_nodup ?_
    rwa [List.map_fst_zip (Nat.le_of_eq hlength.symm)]
  rw [← hmap] at hdiff
  refine ⟨hashes, record, loads, hhashes, waitRetrievalAndStartLoad_eq hretrieves.started hhashes hdiff,
    hround, ?_⟩
  rw [waitTransferTaskDone_startLoad outside record loads h.tasks h.ropeTasks]
  refine ⟨rfl, ?_⟩
  exact
    { nodup_fst := hround.nodup_fst hblocks
      nodup_snd := hround.nodup_snd hdistinct
      first := hround.holds hblocks h.first
      second := by
        rintro v hv
        obtain ⟨v₀, hv₀, rfl⟩ := Option.map_eq_some_iff.mp hv
        exact hround.holds hblocks (h.second v₀ hv₀)
      tasks := h.tasks
      ropeTasks := h.ropeTasks }

theorem prefilled_ready (outside : Outside Q η β) {sparseRange : Nat} {freeSlots : List Nat}
    (hhashes : hashes.length = sparseRange) (hfree : freeSlots.Nodup) (hmap : s.preTopkBlockHashes = [])
    (htasks : s.tasks = []) (hrope : s.ropeTasks = []) :
    Settled outside (prefilled cfg s hashes m sparseRange freeSlots) ∧
      SlotsHashed (prefilled cfg s hashes m sparseRange freeSlots) := by
  constructor
  · exact
      { nodup_fst := by
          show (s.preTopkBlockHashes.map _).Nodup
          rw [hmap]
          exact List.nodup_nil
        nodup_snd := by
          show (s.preTopkBlockHashes.map _).Nodup
          rw [hmap]
          exact List.nodup_nil
        first := by
          show Holds _ s.preTopkBlockHashes _
          rw [hmap]
          exact holds_nil
        second := fun _ _ => by
          show Holds _ s.preTopkBlockHashes _
          rw [hmap]
          exact holds_nil
        tasks := htasks
        ropeTasks := hrope }
  · refine ⟨hashes, rfl, fun slot hslot => ?_⟩
    obtain ⟨i, hi, heq⟩ := List.mem_iff_getElem.mp hslot
    change i < (freeSlots.take sparseRange).length at hi
    refine ⟨i, ?_, ?_⟩
    · have hkeys : ((freeSlots.take sparseRange).zipIdx.map Prod.fst).Nodup := by
        rw [List.zipIdx_map_fst]
        exact hfree.sublist (List.take_sublist _ _)
      refine (Dict.get?_eq_some_iff hkeys).mpr (List.mem_zipIdx_iff_getElem?.mpr ?_)
      rw [← heq]
      exact List.getElem?_eq_getElem hi
    · rw [List.length_take] at hi
      omega

/-- What happens between rounds: the blocks of the record keep their contents, and another retrieval may
be started. -/
structure Between (s s' : State Q η β) : Prop where
  slots : s'.slots = s.slots
  slotsToRelativeIndexes : s'.slotsToRelativeIndexes = s.slotsToRelativeIndexes
  blockHashes : s'.blockHashes = s.blockHashes
  isMla : s'.isMla = s.isMla
  record : s'.preTopkBlockHashes = s.preTopkBlockHashes
  tasks : s'.tasks = s.tasks
  ropeTasks : s'.ropeTasks = s.ropeTasks
  kCache : ∀ p ∈ s.preTopkBlockHashes, s'.kCache p.1 = s.kCache p.1
  vCache : ∀ v', s'.vCache = some v' →
    ∃ v, s.vCache = some v ∧ ∀ p ∈ s.preTopkBlockHashes, v' p.1 = v p.1

theorem Between.settled (h : Between s s') (hs : Settled outside s) : Settled outside s' where
  nodup_fst := h.record ▸ hs.nodup_fst
  nodup_snd := h.record ▸ hs.nodup_snd
  first := by
    rw [h.record]
    exact hs.first.congr h.kCache
  second := by
    intro v' hv'
    obtain ⟨v, hv, heq⟩ := h.vCache v' hv'
    have hdata : secondData outside s' = secondData outside s := by
      unfold secondData
      rw [h.isMla]
    rw [h.record, hdata]
    exact (hs.second v hv).congr heq
  tasks := h.tasks.trans hs.tasks
  ropeTasks := h.ropeTasks.trans hs.ropeTasks

theorem Between.slotsHashed (h : Between s s') (hs : SlotsHashed s) : SlotsHashed s' := by
  unfold SlotsHashed
  rwa [h.slots, h.slotsToRelativeIndexes, h.blockHashes]

theorem between_startRetrieval (cfg : Config) (s : State Q η β) (query : Q) :
    Between s (startRetrieval cfg s query) :=
  ⟨rfl, rfl, rfl, rfl, rfl, rfl, rfl, fun _ _ => rfl, fun v hv => ⟨v, hv, fun _ _ => rfl⟩⟩

/-- Rounds over these blocks, each with the wait after it. -/
inductive Rounds [DecidableEq η] (cfg : Config) (outside : Outside Q η β) (blocks : List Nat)
    (s₀ : State Q η β) : State Q η β → Prop
  | start : Rounds cfg outside blocks s₀ s₀
  | between {s s' : State Q η β} : Rounds cfg outside blocks s₀ s → Between s s' →
    Rounds cfg outside blocks s₀ s'
  | round {s s' : State Q η β} {m : ReqMeta η} {task : RetrievalTask Q} {orders : SetOrders η} :
    Rounds cfg outside blocks s₀ s → Retrieves cfg outside blocks s m task →
    waitRetrievalAndStartLoad cfg outside s m orders = some s' →
    Rounds cfg outside blocks s₀ (waitTransferTaskDone outside s')

/-- **The record matches the caches after any number of rounds.** -/
theorem Rounds.settled [DecidableEq η] {s₀ : State Q η β} (h : Rounds cfg outside blocks s₀ s)
    (hblocks : blocks.Nodup) (hstart : Settled outside s₀) (hslots : SlotsHashed s₀) :
    Settled outside s ∧ SlotsHashed s := by
  induction h with
  | start => exact ⟨hstart, hslots⟩
  | between _ hbetween ih => exact ⟨hbetween.settled ih.1, hbetween.slotsHashed ih.2⟩
  | @round s s' m task orders _ hretrieves hrun ih =>
    obtain ⟨-, record, loads, -, hrun', -, -, hsettled⟩ := ih.1.round ih.2 hblocks hretrieves orders
    obtain rfl := Option.some.inj (hrun'.symm.trans hrun)
    refine ⟨hsettled, ?_⟩
    rw [waitTransferTaskDone_startLoad outside record loads ih.1.tasks ih.1.ropeTasks]
    exact ih.2

/-! ## Values for small configurations -/

theorem half_nonneg : (0 : ℚ) ≤ 1 / 2 := by decide +kernel

theorem half_le_one : (1 / 2 : ℚ) ≤ 1 := by decide +kernel

theorem stride_pos : 0 < 3 := by decide

end UnifiedCache.Esa
