import UnifiedCache.Gsa.Blocks
import UnifiedCache.Lib.Dict
import UnifiedCache.Lib.Moves

/-!
# Moving the blocks that are kept

After the last chunk of a long prompt only some blocks of a request stay. The contents of the blocks
that the top-k has chosen are moved into them, in place. `get_mv_map` plans the moves: a chosen block
that stays keeps its place, and every other one gets a place of a block that is not chosen.
-/

open Lib

namespace UnifiedCache.Gsa.MvMap

/-- What `get_mv_map` returns: dictionaries from physical block to physical block, and from index to
physical block. -/
structure Plan where
  mvMap : List (Nat × Nat)
  remainMap : List (Nat × Nat)
  prefetchMap : List (Nat × Nat)

/-- The first loop over the top-k: `new_block`. -/
def newBlock (blocks remainIdxs topkValues : List Nat) : Option (List (Option Nat)) :=
  topkValues.mapM fun idx => if idx ∈ remainIdxs then blocks[idx]?.map some else some none

/-- `free_block`. -/
def freeBlock (remainIdxs topkValues : List Nat) : List Nat :=
  let hitBlock := topkValues.filter fun idx => idx ∈ remainIdxs
  remainIdxs.filter fun idx => idx ∉ hitBlock

/-- The loop that fills `new_block`, over the indices with what `new_block` has for them: `new_block`
and `mv_map` after it. It pops from `free_block`. -/
def fillBlocks (blocks : List Nat) :
    List (Nat × Option Nat) → List Nat → List (Nat × Nat) → Option (List Nat × List (Nat × Nat))
  | [], _, mvMap => some ([], mvMap)
  | (_, some block) :: rest, freeBlock, mvMap => do
    let (newBlock, mvMap) ← fillBlocks blocks rest freeBlock mvMap
    some (block :: newBlock, mvMap)
  | (_, none) :: _, [], _ => none
  | (idx, none) :: rest, oneFreeIdx :: freeBlock, mvMap => do
    let target ← blocks[oneFreeIdx]?
    let source ← blocks[idx]?
    let (newBlock, mvMap) ← fillBlocks blocks rest freeBlock (Dict.set mvMap source target)
    some (target :: newBlock, mvMap)

/-- The last loop, from index `i` on. -/
def splitMaps (remainLen : Int) : Nat → List (Nat × Nat) → List (Nat × Nat) → List (Nat × Nat) →
    List (Nat × Nat) × List (Nat × Nat)
  | _, [], remainMap, prefetchMap => (remainMap, prefetchMap)
  | i, (idx, block) :: rest, remainMap, prefetchMap =>
    if (i : Int) < remainLen then
      splitMaps remainLen (i + 1) rest (Dict.set remainMap idx block) prefetchMap
    else splitMaps remainLen (i + 1) rest remainMap (Dict.set prefetchMap idx block)

/-- `get_mv_map`. -/
def getMvMap (blocks remainIdxs topkValues : List Nat) (remainLen : Int) : Option Plan := do
  let hits ← newBlock blocks remainIdxs topkValues
  let (blocks, mvMap) ← fillBlocks blocks (topkValues.zip hits) (freeBlock remainIdxs topkValues) []
  let (remainMap, prefetchMap) := splitMaps remainLen 0 (topkValues.zip blocks) [] []
  some ⟨mvMap, remainMap, prefetchMap⟩

/-- `kvcache_init_last_chunk`: the plan, and a cache with the copies of `mv_map`. -/
def kvcacheInitLastChunk {β : Type} (cfg : Blocks.GsaConfig) (blocks topkValue : List Nat)
    (layerCache : Nat → β) : Option (Plan × (Nat → β)) := do
  let remainIdx := Blocks.kvcacheInitLastChunk cfg blocks.length
  if remainIdx.length ≠ topkValue.length then none
  else
    let plan ← getMvMap blocks remainIdx topkValue (cfg.computeTopkLen blocks.length)
    some (plan, Moves.copyAll layerCache plan.mvMap)

end UnifiedCache.Gsa.MvMap
