import UnifiedCache.Esa.ReqState
import UnifiedCache.Gsa.Proofs.BlocksProofs

/-!
# The prefill of ESA

Nothing happens before the last chunk. With it the windows are put aside, and the blocks between them
get slots.
-/

open Lib

namespace UnifiedCache.Esa

variable {Q η β : Type} {cfg : Config} {s s' : State Q η β} {m : ReqMeta η} {hashes : List η}
  {ms : List (ReqMeta η × Q)} {sparseRange : Nat} {freeSlots : List Nat}

/-- Only the last chunk ends the prefill, and all have the hashes of the request. -/
structure Prefills (hashes : List η) (ms : List (ReqMeta η × Q)) (m : ReqMeta η) : Prop where
  before : ∀ c ∈ ms, c.1.isLastChunk = false ∧ c.1.ucmBlockHashes = hashes
  last : m.isLastChunk = true
  hashes : m.ucmBlockHashes = hashes

/-- A state after the prefill, for a request that had no slots before. -/
def prefilled (cfg : Config) (s : State Q η β) (hashes : List η) (m : ReqMeta η) (sparseRange : Nat)
    (freeSlots : List Nat) : State Q η β :=
  { s with
    blockHashes := some hashes
    initStaticFlag := true
    sparseRange
    slots := freeSlots.take sparseRange
    slotsToRelativeIndexes := (freeSlots.take sparseRange).zipIdx
    initWindow := some (window s (m.vllmBlockIds.take cfg.initWindowSz))
    localWindow := some (window s (m.vllmBlockIds.drop (cfg.initWindowSz + sparseRange)))
    step := 1 }

theorem blockRepreData_eq (hslots : s.slots = []) (hmap : s.slotsToRelativeIndexes = [])
    (hrange : Sparse.getSparseRange cfg.initWindowSz cfg.localWindowSz m.numPromptTokens cfg.blockSize =
      sparseRange) (hfree : freeSlots.Nodup) :
    blockRepreData cfg s m freeSlots =
      if (m.vllmBlockIds.take (cfg.initWindowSz + sparseRange)).drop cfg.initWindowSz = [] ∨
        freeSlots.length < sparseRange then none
      else some { s with
        sparseRange
        slots := freeSlots.take sparseRange
        slotsToRelativeIndexes := (freeSlots.take sparseRange).zipIdx
        initWindow := some (window s (m.vllmBlockIds.take cfg.initWindowSz))
        localWindow := some (window s (m.vllmBlockIds.drop (cfg.initWindowSz + sparseRange))) } := by
  have hend : (cfg.initWindowSz : Int) + (sparseRange : Nat) =
      ((cfg.initWindowSz + sparseRange : Nat) : Int) := (Nat.cast_add _ _).symm
  have hkeys : ((freeSlots.take sparseRange).zipIdx.map Prod.fst).Nodup := by
    rw [List.zipIdx_map_fst]
    exact hfree.sublist (List.take_sublist _ _)
  have hpairs : (freeSlots.take sparseRange).zipIdx.foldl (fun d p => Dict.set d p.1 p.2) [] =
      (freeSlots.take sparseRange).zipIdx := Dict.ofPairs_of_nodup hkeys
  unfold blockRepreData
  rw [hrange]
  dsimp only
  rw [hend, Gsa.Blocks.slice_natCast, Gsa.Blocks.slice_natCast, Gsa.Blocks.slice_zero, hslots, hmap,
    List.nil_append, List.length_nil, hpairs, List.take_length]
  by_cases hdump : (m.vllmBlockIds.take (cfg.initWindowSz + sparseRange)).drop cfg.initWindowSz = []
  · rw [if_pos hdump, if_pos (.inl hdump)]
  · rw [if_neg hdump]
    by_cases hfew : freeSlots.length < sparseRange
    · rw [if_pos (Int.ofNat_lt.mpr hfew), if_pos (.inr hfew)]
    · rw [if_neg (mt Int.ofNat_lt.mp hfew), if_neg (not_or.mpr ⟨hdump, hfew⟩)]

theorem attentionBegin_zero [DecidableEq η] (outside : Outside Q η β) (query : Q)
    (orders : SetOrders η) (hstep : s.step = 0) :
    attentionBegin cfg outside s m query orders = some (maybeRegisterStaticData s m) := by
  have hstep' : (maybeRegisterStaticData s m).step = 0 := by
    unfold maybeRegisterStaticData
    split_ifs <;> exact hstep
  refine if_neg ?_
  rw [hstep', Nat.zero_mod]
  exact Nat.zero_ne_one

theorem maybeRegisterStaticData_eq (hhashes : m.ucmBlockHashes = hashes)
    (hflag : s.initStaticFlag = true → s.blockHashes = some hashes) :
    maybeRegisterStaticData s m = { s with blockHashes := some hashes, initStaticFlag := true } := by
  unfold maybeRegisterStaticData
  split_ifs with hset
  · rw [← hflag hset, ← hset]
  · rw [hhashes]

/-- **The prefill** comes down to `block_repre_data` in its last chunk. -/
theorem prefill_eq [DecidableEq η] (outside : Outside Q η β) (orders : SetOrders η) (query : Q)
    (h : Prefills hashes ms m) (hstep : s.step = 0)
    (hflag : s.initStaticFlag = true → s.blockHashes = some hashes) (hslots : s.slots = [])
    (hmap : s.slotsToRelativeIndexes = [])
    (hrange : Sparse.getSparseRange cfg.initWindowSz cfg.localWindowSz m.numPromptTokens cfg.blockSize =
      sparseRange) (hfree : freeSlots.Nodup) :
    prefill cfg outside orders freeSlots s (ms ++ [(m, query)]) =
      if (m.vllmBlockIds.take (cfg.initWindowSz + sparseRange)).drop cfg.initWindowSz = [] ∨
        freeSlots.length < sparseRange then none
      else some (prefilled cfg s hashes m sparseRange freeSlots) := by
  obtain ⟨hbefore, hlast, hhashes⟩ := h
  induction ms generalizing s with
  | nil =>
    rw [List.nil_append]
    unfold prefill prefill
    rw [attentionBegin_zero outside query orders hstep, maybeRegisterStaticData_eq hhashes hflag]
    unfold attentionFinished
    rw [Option.bind_eq_bind, Option.bind_some]
    show (if s.step = 0 then if m.isLastChunk = true then _ else _ else _ : Option _).bind some = _
    rw [if_pos hstep, if_pos hlast,
      blockRepreData_eq (s := { s with blockHashes := some hashes, initStaticFlag := true })
        hslots hmap hrange hfree]
    split_ifs
    · rfl
    · simp only [Option.bind_some, hstep]
      rfl
  | cons c ms ih =>
    obtain ⟨hnot, hsame⟩ := hbefore c List.mem_cons_self
    rw [List.cons_append]
    unfold prefill
    rw [attentionBegin_zero outside c.2 orders hstep, maybeRegisterStaticData_eq hsame hflag]
    unfold attentionFinished
    rw [Option.bind_eq_bind, Option.bind_some]
    show (if s.step = 0 then if c.1.isLastChunk = true then _ else some _ else _ : Option _).bind _ = _
    rw [if_pos hstep, hnot, if_neg Bool.false_ne_true, Option.bind_some]
    exact ih (s := { s with blockHashes := some hashes, initStaticFlag := true }) hstep (fun _ => rfl)
      hslots hmap (fun c hc => hbefore c (List.mem_cons_of_mem _ hc))

end UnifiedCache.Esa
