import UnifiedCache.Connector.Blend
import UnifiedCache.Sparse.BlockwiseRope

/-!
# Shifting the keys of chunks

The keys of a chunk are stored with the rotation of the positions that they had when the chunk was
computed. Once a layer is loaded, `UCMBlendConnector` rotates them by the offset of their chunk.
-/

open Lib
open UnifiedCache.Sparse.BlockwiseRope

namespace UnifiedCache.Connector

variable {η K : Type} [CommRing K]

/-- `bind_connector_metadata`: `delta_rope_vllm_ids` and `delta_rope_positions` of all requests. -/
def bindDeltaRope (requestMeta : List (BlendRequestDispatchMeta η)) : List VllmBlock × List Int :=
  deltaRope (requestMeta.flatMap (·.chunksMeta))

/-- `wait_for_layer_load` on the keys of a layer. A position inside the table is not negative. -/
def waitForLayerLoad (nextPowerOf2 : Nat → Nat) (shape : CacheShape) (rows : Nat)
    (cosSinCache : Nat → K) (requestMeta : List (BlendRequestDispatchMeta η)) (order : List Nat)
    (kCache : Nat → K) : Nat → K :=
  let (deltaRopeVllmIds, deltaRopePositions) := bindDeltaRope requestMeta
  if deltaRopeVllmIds ≠ [] then
    blockWiseRopeForward nextPowerOf2 shape rows cosSinCache deltaRopeVllmIds
      (deltaRopePositions.map Int.toNat) order kCache
  else kCache

end UnifiedCache.Connector
