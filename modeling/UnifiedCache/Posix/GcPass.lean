import UnifiedCache.Posix.ShardGc

/-!
# A pass of the garbage collector

One turn of the outer loop of `GCCheckLoop`, from its `ShouldTrigger` to `wait_for`: nobody writes and
nobody stops the collector, and every `ShouldTrigger` may sample other shards.

The ratios are those that `CheckConfig` admits, but it looks at them only if `deviceId` is not -1. With
a sample ratio above 1 the source looks into directories that are no shards, which is not modelled.
-/

open Lib

namespace UnifiedCache.Posix

/-- The collector in a pass, with the number of files that every round has removed and the average of
the last `ShouldTrigger`. -/
structure GcPass where
  gc : GcState
  removed : List Nat
  avgFiles : Nat
deriving DecidableEq

variable (cfg : GcConfig)

namespace GcPass

/-- Before the first `ShouldTrigger`. -/
def start (shards : List (List FileInfo)) : GcPass := ⟨⟨shards, .check, false⟩, [], 0⟩

/-- The next step of the collector, with what `SampleShards` gives. The pass ends where it sleeps. -/
def step (s : GcPass) (sample : List Nat) : Option GcPass :=
  if s.gc.pc = .sleep then none
  else if s.gc.pc = .execute then
    (s.gc.gcStep cfg sample).map fun gc =>
      { s with gc := gc, removed := s.removed ++ [totalFiles s.gc.shards - totalFiles gc.shards] }
  else
    (s.gc.gcStep cfg sample).map fun gc =>
      { s with gc := gc, avgFiles := avgFilesPerShard s.gc.shards sample }

/-- In no shard a round pops more files from the heap than are in it. -/
def Fits (s : GcPass) : Prop :=
  ∀ shard ∈ s.gc.shards, recycled cfg shard.length ≤ heapSize cfg shard.length

/-- A round that reaches the cap in some shard leaves files to recycle in some shard. -/
def Continues (s : GcPass) : Prop :=
  (∃ shard ∈ s.gc.shards, cfg.posixGcMaxRecycleCountPerShard ≤ recycled cfg shard.length) →
    ∃ shard ∈ s.gc.shards, 0 < recycled cfg (shard.length - recycled cfg shard.length)

/-- What a pass needs before a round. -/
def Recycles (s : GcPass) : Prop := s.gc.pc = .execute → s.Fits cfg ∧ s.Continues cfg

instance (s : GcPass) : Decidable (s.Recycles cfg) :=
  inferInstanceAs (Decidable (_ → (∀ shard ∈ s.gc.shards, _) ∧ (_ → _)))

/-- A bound on the steps that are left. -/
def stepsLeft (s : GcPass) : Nat :=
  2 * totalFiles s.gc.shards + if s.gc.pc = .check ∨ s.gc.pc = .recheck then 1 else 0

end GcPass

/-- All passes over these files. -/
def passMachine (shards : List (List FileInfo)) : Machine GcPass (List Nat) where
  init s := s = .start shards
  step := GcPass.step cfg

end UnifiedCache.Posix
