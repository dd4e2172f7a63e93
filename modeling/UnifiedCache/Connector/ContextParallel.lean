import UnifiedCache.Connector.Dispatch
import UnifiedCache.Lib.Stripes

/-!
# Stripes of a context

`UCMCPConnector` serves workers that share a context: a block of vLLM's table stands for
`cp_world_size` blocks of tokens, one on each rank. The scheduler is that of `UCMDirectConnector` with
the larger `block_size`, and hands the same metadata to all workers; when it is bound, a worker keeps
the hashes `[current_rank :: cp_world_size]` of what it has to load and to dump, and all the blocks of
the GPU they go with.
-/

open Lib

namespace UnifiedCache.Connector

variable {η : Type} {cfg : Config η}

/-- The groups of workers that share a context. -/
structure CpGroups (cfg : Config η) where
  pcpWorldSize : Nat
  dcpWorldSize : Nat
  cpWorldSize_eq : cfg.cpWorldSize = pcpWorldSize * dcpWorldSize

/-- A worker: its `rank_in_group` in the two groups. -/
structure CpRank (g : CpGroups cfg) where
  pcpRank : Fin g.pcpWorldSize
  dcpRank : Fin g.dcpWorldSize

/-- All workers of a context. -/
def CpGroups.ranks (g : CpGroups cfg) : List (CpRank g) :=
  (List.finRange g.pcpWorldSize).flatMap fun p => (List.finRange g.dcpWorldSize).map fun d => ⟨p, d⟩

namespace CpRank

variable {g : CpGroups cfg}

/-- `self.current_rank`. -/
def currentRank (k : CpRank g) : Nat := g.dcpWorldSize * k.pcpRank + k.dcpRank

/-- What `bind_connector_metadata` does to `load_block_ids`, and again to `dump_block_ids`. -/
def bindBlockIds (k : CpRank g) (blocks : List η × List VllmBlock) : List η × List VllmBlock :=
  if blocks.1.length > 0 then (stride cfg.cpWorldSize k.currentRank blocks.1, blocks.2) else blocks

/-- The body of the loop of `bind_connector_metadata`. -/
def bindRequest (k : CpRank g) (d : RequestDispatchMeta η) : RequestDispatchMeta η :=
  ⟨k.bindBlockIds d.loadBlockIds, k.bindBlockIds d.dumpBlockIds⟩

/-- `bind_connector_metadata`. -/
def bindConnectorMetadata (k : CpRank g) (metas : ConnectorMetadata η) : ConnectorMetadata η :=
  metas.map fun x => (x.1, k.bindRequest x.2)

end CpRank

/-- What a worker is left with. The `j`th hash and the `j`th block of the GPU go together: the block
stands at place `start + j` of the request's table, and the hash is that of the block of tokens that
the rank has in it. -/
structure Striped (cfg : Config η) (r : Request) (rank bound : Nat)
    (blocks : List η × List VllmBlock) : Prop where
  length : blocks.1.length = blocks.2.length
  place : ∃ start, ∀ j v, blocks.2[j]? = some v →
    r.blockTable[start + j]? = some v ∧
    blocks.1[j]? = some (blockHash cfg r.allTokenIds ((start + j) * cfg.cpWorldSize + rank)) ∧
    (start + j + 1) * cfg.blockSize ≤ bound

/-- So it is for what is loaded, and for what is dumped, which is computed when the step is over. -/
structure DispatchStriped (cfg : Config η) (r : Request) (rank : Nat) (d : RequestDispatchMeta η) :
    Prop where
  load : Striped cfg r rank r.allTokenIds.length d.loadBlockIds
  dump : Striped cfg r rank r.numComputedTokens d.dumpBlockIds

/-- The hashes the workers keep of some blocks are all of them, each once. -/
def Partitioned (g : CpGroups cfg) (blocks : List η × List VllmBlock) : Prop :=
  (g.ranks.flatMap fun k => (k.bindBlockIds blocks).1).Perm blocks.1

/-- No request is preempted. -/
def NoPreempt : State η → Event → Prop
  | _, .preempt _ => False
  | _, _ => True

instance (s : State η) : (e : Event) → Decidable (NoPreempt s e)
  | .preempt _ => .isFalse id
  | .arrive _ _ => .isTrue trivial
  | .matched _ _ _ => .isTrue trivial
  | .schedule _ => .isTrue trivial
  | .append _ _ => .isTrue trivial
  | .finish _ => .isTrue trivial

end UnifiedCache.Connector
