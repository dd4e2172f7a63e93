import UnifiedCache.Connector.Repair
import UnifiedCache.Connector.Proofs.DispatchProofs

/-!
# Proofs: the repair

The repair finds exactly the affected requests, leaves the others alone, and sets no request back
behind all its invalid blocks.
-/

open Function

namespace UnifiedCache.Connector

variable {η : Type} {bs : Nat} {invalid marked : List VllmBlock} {r : Request} {id : ReqId}

/-! ## Blocks -/

/-- What the loop over the blocks has found in those it has seen. -/
structure Scan.Ok (bs : Nat) (invalid : List VllmBlock) (seen : List (Nat × VllmBlock)) (x : Scan) :
    Prop where
  affected : x.isAffected = true ↔ ∃ e ∈ seen, e.2 ∈ invalid
  marked : x.markedInvalidBlock = true →
    ∃ e ∈ seen, e.2 ∈ invalid ∧ x.numComputedTokens = e.1 * bs

/-- One more block. -/
theorem Scan.Ok.scanBlock {seen : List (Nat × VllmBlock)} {x : Scan} (h : Scan.Ok bs invalid seen x)
    (e : Nat × VllmBlock) : Scan.Ok bs invalid (seen ++ [e]) (scanBlock bs invalid x e) := by
  have hseen : (∃ a ∈ seen ++ [e], a.2 ∈ invalid) ↔
      (∃ a ∈ seen, a.2 ∈ invalid) ∨ e.2 ∈ invalid := by
    simp only [List.mem_append, List.mem_singleton, or_and_right, exists_or, exists_eq_left]
  have hmarked : x.markedInvalidBlock = true →
      ∃ a ∈ seen ++ [e], a.2 ∈ invalid ∧ x.numComputedTokens = a.1 * bs := by
    intro hm
    obtain ⟨a, ha, hinvalid, hcomputed⟩ := h.marked hm
    exact ⟨a, List.mem_append_left _ ha, hinvalid, hcomputed⟩
  unfold Connector.scanBlock
  split_ifs with hinvalid hold hm
  · exact ⟨by rw [hseen]; simp [hinvalid], hmarked⟩
  · exact ⟨by rw [hseen]; simp [hinvalid], hmarked⟩
  · exact ⟨by rw [hseen]; simp [hinvalid],
      fun _ => ⟨e, List.mem_append_right _ (List.mem_singleton_self e), hinvalid, rfl⟩⟩
  · exact ⟨by rw [hseen, h.affected]; simp [hinvalid], hmarked⟩

/-- All blocks of a request, one after the other. -/
theorem Scan.Ok.foldl {l : List (Nat × VllmBlock)} :
    ∀ {seen : List (Nat × VllmBlock)} {x : Scan}, Scan.Ok bs invalid seen x →
      Scan.Ok bs invalid (seen ++ l) (l.foldl (Connector.scanBlock bs invalid) x) := by
  induction l with
  | nil =>
    intro seen x h
    rw [List.append_nil]
    exact h
  | cons e l ih =>
    intro seen x h
    rw [List.foldl_cons, show seen ++ e :: l = (seen ++ [e]) ++ l by simp]
    exact ih (h.scanBlock e)

theorem mem_range_zip {n k : Nat} {table : List VllmBlock} {v : VllmBlock} :
    (k, v) ∈ (List.range n).zip table ↔ k < n ∧ table[k]? = some v := by
  constructor
  · intro h
    obtain ⟨i, hi⟩ := List.getElem?_of_mem h
    rw [List.getElem?_zip_eq_some] at hi
    obtain ⟨hrange, hv⟩ := hi
    obtain ⟨hlt, hget⟩ := List.getElem?_eq_some_iff.mp hrange
    rw [List.getElem_range] at hget
    subst hget
    exact ⟨by simpa using hlt, hv⟩
  · rintro ⟨hk, hv⟩
    refine List.mem_of_getElem? (i := k) ?_
    rw [List.getElem?_zip_eq_some]
    exact ⟨by simp [hk], hv⟩

/-- The loop finds out whether the request is affected. -/
theorem scanRequest_isAffected (marked : List VllmBlock) :
    (scanRequest bs invalid marked r).isAffected = true ↔ Affected bs invalid r := by
  have hok : Scan.Ok bs invalid [] ⟨false, false, marked, r.numComputedTokens⟩ :=
    ⟨by simp, by simp⟩
  refine hok.foldl.affected.trans ?_
  rw [List.nil_append]
  unfold Affected
  constructor
  · rintro ⟨⟨k, v⟩, hmem, hv⟩
    obtain ⟨hk, hget⟩ := mem_range_zip.mp hmem
    refine ⟨v, List.mem_of_getElem? (i := k) ?_, hv⟩
    rw [List.getElem?_take, if_pos hk, hget]
  · rintro ⟨v, hmem, hv⟩
    obtain ⟨k, hk⟩ := List.getElem?_of_mem hmem
    rw [List.getElem?_take] at hk
    split_ifs at hk with hlt
    exact ⟨(k, v), mem_range_zip.mpr ⟨hlt, hk⟩, hv⟩

/-- Where the loop sets a request back to. -/
theorem scanRequest_marked (h : (scanRequest bs invalid marked r).markedInvalidBlock = true) :
    ∃ k v, r.blockTable[k]? = some v ∧ v ∈ invalid ∧
      (scanRequest bs invalid marked r).numComputedTokens = k * bs := by
  have hok : Scan.Ok bs invalid [] ⟨false, false, marked, r.numComputedTokens⟩ :=
    ⟨by simp, by simp⟩
  obtain ⟨⟨k, v⟩, hmem, hv, hcomputed⟩ := hok.foldl.marked h
  rw [List.nil_append] at hmem
  exact ⟨k, v, (mem_range_zip.mp hmem).2, hv, hcomputed⟩

/-- An affected request has an invalid block below its cached tokens. -/
theorem Affected.below (h : Affected bs invalid r) (hbs : 0 < bs) :
    ∃ k v, r.blockTable[k]? = some v ∧ v ∈ invalid ∧ k * bs ≤ r.numCachedTokens.getD 0 := by
  obtain ⟨v, hmem, hv⟩ := h
  obtain ⟨k, hk⟩ := List.getElem?_of_mem hmem
  rw [List.getElem?_take] at hk
  split_ifs at hk with hlt
  refine ⟨k, v, hk, hv, ?_⟩
  have hmul := (Nat.lt_div_iff_mul_lt hbs).mp hlt
  omega

/-! ## Requests -/

/-- What the repair has done after the requests seen. -/
structure Repair.Ok (bs : Nat) (invalid : List VllmBlock) (requests : ReqId → Request)
    (seen : List ReqId) (x : Repair) : Prop where
  /-- Only the number of computed tokens changes. -/
  same : ∀ id, x.requests id =
    { requests id with numComputedTokens := (x.requests id).numComputedTokens }
  affected : ∀ id, id ∈ x.affectedReqIds ↔ id ∈ seen ∧ Affected bs invalid (requests id)
  unaffected : ∀ id, id ∉ x.affectedReqIds → x.requests id = requests id
  /-- An affected request is not set back behind all its invalid blocks. -/
  back : ∀ id ∈ x.affectedReqIds, ∃ k v, (requests id).blockTable[k]? = some v ∧ v ∈ invalid ∧
    k * bs ≤ (x.requests id).numComputedTokens

theorem Affected.congr {r' : Request} (htable : r'.blockTable = r.blockTable)
    (hcached : r'.numCachedTokens = r.numCachedTokens) :
    Affected bs invalid r' ↔ Affected bs invalid r := by
  unfold Affected Request.numCachedBlocks
  rw [htable, hcached]

/-- One more request: it is set back if it is affected, and the others stay. -/
theorem Repair.Ok.updateRequest {requests : ReqId → Request} {seen : List ReqId} {x : Repair}
    (h : Repair.Ok bs invalid requests seen x) (hbs : 0 < bs) (id : ReqId) :
    Repair.Ok bs invalid requests (seen ++ [id]) (updateRequest bs invalid x id) := by
  have hsame := h.same id
  have htable : (x.requests id).blockTable = (requests id).blockTable := by rw [hsame]
  have hcached : (x.requests id).numCachedTokens = (requests id).numCachedTokens := by rw [hsame]
  have hiff : (scanRequest bs invalid x.markedInvalidBlockIds (x.requests id)).isAffected = true ↔
      Affected bs invalid (requests id) :=
    (scanRequest_isAffected _).trans (Affected.congr htable hcached)
  unfold Connector.updateRequest
  dsimp only
  by_cases haffected : (scanRequest bs invalid x.markedInvalidBlockIds
      (x.requests id)).isAffected = true
  · rw [if_pos haffected]
    have hid := hiff.mp haffected
    refine ⟨?_, ?_, ?_, ?_⟩
    · intro id'
      by_cases heq : id' = id
      · subst heq
        simp only [update_self]
        rw [hsame]
      · simp only [update_of_ne heq]
        exact h.same id'
    · intro id'
      rw [List.mem_append, List.mem_append, h.affected id', List.mem_singleton]
      constructor
      · rintro (⟨hmem, ha⟩ | rfl)
        · exact ⟨.inl hmem, ha⟩
        · exact ⟨.inr rfl, hid⟩
      · rintro ⟨hmem | rfl, ha⟩
        · exact .inl ⟨hmem, ha⟩
        · exact .inr rfl
    · intro id' hnot
      rw [List.mem_append, List.mem_singleton, not_or] at hnot
      simp only [update_of_ne hnot.2]
      exact h.unaffected id' hnot.1
    · intro id' hmem
      by_cases heq : id' = id
      · subst heq
        simp only [update_self]
        by_cases hmarked : (scanRequest bs invalid x.markedInvalidBlockIds
            (x.requests id')).markedInvalidBlock = true
        · obtain ⟨k, v, hk, hv, hcomputed⟩ := scanRequest_marked hmarked
          rw [htable] at hk
          rw [if_pos hmarked]
          exact ⟨k, v, hk, hv, Nat.le_of_eq hcomputed.symm⟩
        · rw [if_neg hmarked, hcached]
          exact hid.below hbs
      · simp only [update_of_ne heq]
        rw [List.mem_append, List.mem_singleton] at hmem
        rcases hmem with hmem | hmem
        · exact h.back id' hmem
        · exact absurd hmem heq
  · rw [if_neg haffected]
    have hid := mt hiff.mpr haffected
    refine ⟨h.same, ?_, h.unaffected, h.back⟩
    intro id'
    rw [h.affected id', List.mem_append, List.mem_singleton]
    constructor
    · rintro ⟨hmem, ha⟩
      exact ⟨.inl hmem, ha⟩
    · rintro ⟨hmem | rfl, ha⟩
      · exact ⟨hmem, ha⟩
      · exact absurd ha hid

/-- `_update_requests_with_invalid_blocks` finds the affected requests and leaves the others alone.
-/
theorem updateRequestsWithInvalidBlocks_spec (invalid : List VllmBlock) (hbs : 0 < bs)
    (running : List ReqId) (requests : ReqId → Request) : Repair.Ok bs invalid requests running
      (updateRequestsWithInvalidBlocks bs running invalid requests) := by
  have hfold : ∀ (l seen : List ReqId) (x : Repair), Repair.Ok bs invalid requests seen x →
      Repair.Ok bs invalid requests (seen ++ l) (l.foldl (updateRequest bs invalid) x) := by
    intro l
    induction l with
    | nil =>
      intro seen x h
      rw [List.append_nil]
      exact h
    | cons id l ih =>
      intro seen x h
      rw [List.foldl_cons, show seen ++ id :: l = (seen ++ [id]) ++ l by simp]
      exact ih _ _ (h.updateRequest hbs id)
  have hnil : Repair.Ok bs invalid requests [] ⟨requests, [], []⟩ :=
    ⟨fun _ => rfl, by simp, fun _ _ => rfl, by simp⟩
  exact hfold running [] _ hnil

end UnifiedCache.Connector
