import UnifiedCache.Lib.Assignment
import UnifiedCache.Lib.Machine
import Mathlib.Data.Finset.Card

/-!
# GSA prefetch

A request in sparse decoding has only some of the blocks of its prompt in memory. For each layer the
engine knows which index of the prompt is in which block (`mDocsTables`) and the other way around
(`mBlocksMap`). `RunOneBsPrefetch` looks up the top-k indices of a layer, loads some of those that
are not there over blocks of the free list, and fills the success table and the next free list.

This is one request with its row of the tensors. The layers are independent of each other, and what
a load does is the outcome of the event.
-/

namespace UnifiedCache.Gsa.Prefetch

open Lib
open Std (TreeMap)

/-- What the engine is set up with. -/
structure Config where
  layerNum : Nat
  extraTopkLen : UInt32
  isPythonLoad : Bool

/-- What the engine and the tensors hold for the request in one layer. -/
structure Layer where
  /-- `mDocsTables`: the block of an index. -/
  docsTable : TreeMap Nat Nat
  /-- `mBlocksMap`: the index of a block. -/
  blocksMap : TreeMap Nat Nat
  /-- The first `mFreeBlockLen` entries of `mFreeBlock`. -/
  freeBlock : List Nat
  /-- The entries that have been written to `mLoadSuccessBlocks`, with the index of each. -/
  loadSuccessBlocks : List (Nat × Nat)
  successTableLen : Nat
  /-- The index whose KV a block holds. -/
  kv : Nat → Option Nat

/-- No blocks. -/
def Layer.empty : Layer where
  docsTable := ∅
  blocksMap := ∅
  freeBlock := []
  loadSuccessBlocks := []
  successTableLen := 0
  kv := fun _ => none

/-- `hitBlocks` and `hitBlocksIdx`. -/
structure Hits where
  hitBlocks : Finset Nat
  hitBlocksIdx : TreeMap Nat Nat

/-- No hits. -/
def Hits.empty : Hits := ⟨∅, ∅⟩

/-- One more hit. -/
def Hits.insert (hits : Hits) (idx block : Nat) : Hits :=
  ⟨Insert.insert block hits.hitBlocks, hits.hitBlocksIdx.insertIfNew idx block⟩

/-- The outcome of a load. -/
inductive Load where
  | success
  | failure
  /-- The request is being deleted. -/
  | stop
deriving DecidableEq

namespace Layer

variable (layer : Layer)

/-- `SetBlocksMap` and `SetBlocksMapMultiLayer` in one layer: the pairs of indices and blocks, which the
request has filled with KV, and the blocks that may be reused. -/
def set (pairs : List (Nat × Nat)) (free : List Nat) : Layer :=
  pairs.foldl (fun layer p => { layer with
    docsTable := layer.docsTable.insert p.1 p.2
    blocksMap := layer.blocksMap.insert p.2 p.1
    kv := Function.update layer.kv p.2 (some p.1) }) { Layer.empty with freeBlock := free }

/-- `AddBlocksMap` in one layer, for a block that the request fills. -/
def add (idx block : Nat) : Layer :=
  { layer with
    docsTable := layer.docsTable.insert idx block
    blocksMap := layer.blocksMap.insert block idx
    kv := Function.update layer.kv block (some idx) }

/-- `GetHitAndMissBlock`, from what it has found so far. -/
def getHitAndMissBlock (limit : Nat) : List Nat → Hits → List Nat → Hits × List Nat
  | [], hits, missIdxs => (hits, missIdxs)
  | item :: topk, hits, missIdxs =>
    match layer.docsTable.get? item with
    | some block =>
      let hits := hits.insert item block
      if hits.hitBlocks.card = limit then (hits, missIdxs)
      else getHitAndMissBlock limit topk hits missIdxs
    | none => getHitAndMissBlock limit topk hits (missIdxs ++ [item])

end Layer

/-- The loop of `RunPrefetchH2D`: the blocks to load with their indices. -/
def takeFreeBlocks (limit : Nat) : List Nat → List Nat → Hits → List (Nat × Nat) × Hits
  | oneFreeBlockID :: free, idx :: missIdxs, hits =>
    if hits.hitBlocks.card < limit then
      if oneFreeBlockID ∈ hits.hitBlocks then takeFreeBlocks limit free (idx :: missIdxs) hits
      else
        let rest := takeFreeBlocks limit free missIdxs (hits.insert idx oneFreeBlockID)
        ((oneFreeBlockID, idx) :: rest.1, rest.2)
    else ([], hits)
  | _, _, hits => ([], hits)

variable (cfg : Config)

/-- `topkLen - mExtraTopkLen`, in 32 bits. -/
def Config.limit (topkLen : Nat) : Nat := (UInt32.ofNat topkLen - cfg.extraTopkLen).toNat

namespace Layer

variable (layer : Layer)

/-- The end of a load: the block is given to the index. -/
def assign (block idx : Nat) : Layer :=
  let oriIdx := (layer.blocksMap.get? block).getD 0
  { layer with
    blocksMap := layer.blocksMap.insert block idx
    docsTable := (layer.docsTable.erase oriIdx).insert idx block }

/-- `LoadKVToHBM`, where `outcome i` is the outcome of load `i`. A failed load may have overwritten parts
of the block. -/
def loadKVToHBM (outcome : Nat → Load) : Nat → List (Nat × Nat) → Layer → Layer
  | _, [], layer => layer
  | i, (block, idx) :: loads, layer =>
    if cfg.isPythonLoad then loadKVToHBM outcome (i + 1) loads (layer.assign block idx)
    else
      match outcome i with
      | .stop => layer
      | .failure => { layer with kv := Function.update layer.kv block none }
      | .success =>
        loadKVToHBM outcome (i + 1) loads
          ({ layer with kv := Function.update layer.kv block (some idx) }.assign block idx)

/-- The blocks that `RunPrefetchH2D` loads, if it is called at all, and the hits with these. -/
def needLoad (topkLen : Nat) (topk : List Nat) : List (Nat × Nat) × Hits :=
  let limit := cfg.limit topkLen
  let (hits, missIdxs) := layer.getHitAndMissBlock limit topk .empty []
  if missIdxs ≠ [] ∧ hits.hitBlocksIdx.size < limit then
    takeFreeBlocks limit layer.freeBlock missIdxs hits
  else ([], hits)

/-- The blocks that may be reused: those of the prompt that are not hit. -/
def freeBlocks (promptLen : Nat) (hits : Hits) : List Nat :=
  ((layer.docsTable.toList.takeWhile fun p => p.1 < promptLen).filter
    fun p => (hits.hitBlocksIdx.get? p.1).isNone).map Prod.snd

/-- `RunOneBsPrefetch` in one layer. -/
def runOneBsPrefetch (promptLen topkLen : Nat) (topk : List Nat) (outcome : Nat → Load) : Layer :=
  let (loads, hits) := layer.needLoad cfg topkLen topk
  let layer := loadKVToHBM cfg outcome 0 loads layer
  { layer with
    loadSuccessBlocks := hits.hitBlocksIdx.toList
    freeBlock := layer.freeBlocks promptLen hits
    successTableLen := hits.hitBlocks.card }

end Layer

/-- The request. -/
structure State where
  layers : Fin cfg.layerNum → Layer
  /-- `mAllBlcoksHash`. -/
  blocksHash : List String
  promptLen : Nat

/-- The request before its maps are set. -/
def State.start : State cfg := ⟨fun _ => .empty, [], 0⟩

/-- What happens to the request. -/
inductive Event where
  /-- `_first_topk_deal` with `prefetch_idx` and `remain_idx`: the free list is filled, and
  `SetBlocksMap` is called. -/
  | setBlocksMap (blockTableList prefetchIdx remainIdx : List Nat) (blocksHash : List String)
      (maxIdx : Nat)
  /-- The same with maps of their own for the layers, and `SetBlocksMapMultiLayer`. -/
  | setBlocksMapMultiLayer (remainMap prefetchMap : Fin cfg.layerNum → List (Nat × Nat))
      (blocksHash : List String) (maxIdx : Nat)
  | addBlocksMap (idx block : Nat)
  | runOneBsPrefetch (topkLen : Nat) (topk : Fin cfg.layerNum → List Nat)
      (outcome : Fin cfg.layerNum → Nat → Load)

/-- Pairs of different indices have different blocks. -/
def OneToOne (pairs : List (Nat × Nat)) : Prop := ∀ p ∈ pairs, ∀ q ∈ pairs, p.1 = q.1 ↔ p.2 = q.2

instance (pairs : List (Nat × Nat)) : Decidable (OneToOne pairs) :=
  inferInstanceAs (Decidable (∀ p ∈ pairs, ∀ q ∈ pairs, p.1 = q.1 ↔ p.2 = q.2))

variable {cfg}

/-- One call. Different indices of a request are in different blocks, an index that is added is new
as its block is, top-k indices differ, and those that are not there have a hash. -/
def step (s : State cfg) : Event cfg → Option (State cfg)
  | .setBlocksMap blockTableList prefetchIdx remainIdx blocksHash maxIdx =>
    let selectIndex := prefetchIdx ++ remainIdx
    let pairs := selectIndex.map fun idx => (idx, blockTableList.getD idx 0)
    if (∀ idx ∈ selectIndex, idx < blockTableList.length) ∧ OneToOne pairs then
      some ⟨fun _ => .set pairs (prefetchIdx.map fun idx => blockTableList.getD idx 0), blocksHash,
        maxIdx⟩
    else none
  | .setBlocksMapMultiLayer remainMap prefetchMap blocksHash maxIdx =>
    if ∀ i, OneToOne (remainMap i ++ prefetchMap i) then
      some ⟨fun i => .set (remainMap i ++ prefetchMap i) ((prefetchMap i).map Prod.snd), blocksHash,
        maxIdx⟩
    else none
  | .addBlocksMap idx block =>
    if ∀ i, (s.layers i).docsTable.get? idx = none ∧ (s.layers i).blocksMap.get? block = none then
      some { s with layers := fun i => (s.layers i).add idx block }
    else none
  | .runOneBsPrefetch topkLen topk outcome =>
    if ∀ i, (topk i).length = topkLen ∧ (topk i).Nodup ∧
        ∀ idx ∈ topk i, (s.layers i).docsTable.get? idx = none → idx < s.blocksHash.length then
      some { s with layers := fun i =>
        (s.layers i).runOneBsPrefetch cfg s.promptLen topkLen (topk i) (outcome i) }
    else none

variable (cfg)

/-- The machine of a request. -/
def machine : Machine (State cfg) (Event cfg) where
  init s := s = .start cfg
  step := step

variable {cfg}

/-- Every load that a call makes succeeds. -/
def AllLoaded (s : State cfg) : Event cfg → Prop
  | .runOneBsPrefetch topkLen topk outcome => ∀ i,
      ∀ k < ((s.layers i).needLoad cfg topkLen (topk i)).1.length, outcome i k = .success
  | _ => True

/-- What a call reports in a layer is so. -/
structure Layer.Truthful (layer : Layer) (topk : List Nat) : Prop where
  /-- A block of the success table holds the KV of the top-k index under which it is listed. -/
  loaded : ∀ p ∈ layer.loadSuccessBlocks, p.1 ∈ topk ∧ layer.kv p.2 = some p.1
  /-- It is not in the free list. -/
  kept : ∀ p ∈ layer.loadSuccessBlocks, p.2 ∉ layer.freeBlock

end UnifiedCache.Gsa.Prefetch
