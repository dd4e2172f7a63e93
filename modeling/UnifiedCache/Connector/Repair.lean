import UnifiedCache.Connector.Dispatch

/-!
# The repair after failed loads

What the patched scheduler does with the blocks that the connector reports: every running request with
such a block among those that may be externally computed is set back, and its metadata is dropped.
When several requests have the block, the first one recomputes it, and the others go on behind it.
-/

namespace UnifiedCache.Connector

variable {η : Type}

/-- The variables of the loop over the blocks of a request. -/
structure Scan where
  isAffected : Bool
  markedInvalidBlock : Bool
  markedInvalidBlockIds : List VllmBlock
  numComputedTokens : Nat

/-- The body of the loop over the blocks. -/
def scanBlock (blockSize : Nat) (invalid : List VllmBlock) (x : Scan) (e : Nat × VllmBlock) : Scan :=
  if e.2 ∉ invalid then x
  else if e.2 ∈ x.markedInvalidBlockIds then { x with isAffected := true }
  else if x.markedInvalidBlock then
    { x with isAffected := true, markedInvalidBlockIds := e.2 :: x.markedInvalidBlockIds }
  else
    { isAffected := true
      markedInvalidBlock := true
      markedInvalidBlockIds := e.2 :: x.markedInvalidBlockIds
      numComputedTokens := e.1 * blockSize }

/-- `req_num_computed_blocks`: those that may contain externally computed tokens. -/
def Request.numCachedBlocks (blockSize : Nat) (r : Request) : Nat :=
  (r.numCachedTokens.getD 0 + blockSize - 1) / blockSize

/-- The loop over the blocks of a request. -/
def scanRequest (blockSize : Nat) (invalid marked : List VllmBlock) (r : Request) : Scan :=
  ((List.range (r.numCachedBlocks blockSize)).zip r.blockTable).foldl (scanBlock blockSize invalid)
    ⟨false, false, marked, r.numComputedTokens⟩

/-- The variables of the loop over the requests. -/
structure Repair where
  requests : ReqId → Request
  markedInvalidBlockIds : List VllmBlock
  affectedReqIds : List ReqId

/-- The body of the loop over the requests. -/
def updateRequest (blockSize : Nat) (invalid : List VllmBlock) (acc : Repair) (id : ReqId) :
    Repair :=
  let r := acc.requests id
  let x := scanRequest blockSize invalid acc.markedInvalidBlockIds r
  if x.isAffected then
    -- When others have marked all the invalid blocks, only cached tokens count as computed.
    { requests := Function.update acc.requests id { r with
        numComputedTokens :=
          if x.markedInvalidBlock then x.numComputedTokens else r.numCachedTokens.getD 0 }
      markedInvalidBlockIds := x.markedInvalidBlockIds
      affectedReqIds := acc.affectedReqIds ++ [id] }
  else { acc with markedInvalidBlockIds := x.markedInvalidBlockIds }

/-- `_update_requests_with_invalid_blocks` on the running requests. -/
def updateRequestsWithInvalidBlocks (blockSize : Nat) (running : List ReqId)
    (invalid : List VllmBlock) (requests : ReqId → Request) : Repair :=
  running.foldl (updateRequest blockSize invalid) ⟨requests, [], []⟩

/-- `_handle_invalid_blocks`. -/
def handleInvalidBlocks (blockSize : Nat) (running : List ReqId) (invalid : List VllmBlock)
    (s : State η) : State η :=
  let x := updateRequestsWithInvalidBlocks blockSize running invalid s.requests
  { s with
    requests := x.requests
    requestsMeta :=
      x.affectedReqIds.foldl (fun metas id => Function.update metas id none) s.requestsMeta }

/-- The repair finds an invalid block in the request. -/
def Affected (blockSize : Nat) (invalid : List VllmBlock) (r : Request) : Prop :=
  ∃ v ∈ r.blockTable.take (r.numCachedBlocks blockSize), v ∈ invalid

instance (blockSize : Nat) (invalid : List VllmBlock) (r : Request) :
    Decidable (Affected blockSize invalid r) :=
  inferInstanceAs (Decidable (∃ v ∈ r.blockTable.take (r.numCachedBlocks blockSize), v ∈ invalid))

end UnifiedCache.Connector
