import UnifiedCache.Lib.Probing
import Mathlib.Data.Finset.Card
import Mathlib.Algebra.Order.Ring.Nat

/-!
# The hash set

`HashSet<Key, Hash, ShardBits>` of `shared/infra/template`: a number of shards, each an open-addressed
table that is probed linearly. A key that is removed leaves a tombstone behind, which a later key may
take; a shard that is three quarters full of keys and tombstones is rehashed into twice the slots.

Every operation holds the lock of the shard it works on, so operations are steps. A loop gets as many
turns as the shard has slots: a probe that has not ended by then has been around the table and never
ends, which is `none`.
-/

namespace UnifiedCache.Infra

/-- `SlotState`. -/
inductive SlotState where
  | empty
  | occupied
  | deleted
deriving DecidableEq, Repr

/-- `Slot`. -/
structure Slot (κ : Type*) where
  key : Option κ
  state : SlotState

namespace Slot

variable {κ : Type*} [DecidableEq κ]

/-- `Slot{}`. -/
def init : Slot κ := ⟨none, .empty⟩

/-- `IsOccupied(slot) && *slot.key == key`. -/
def holds (slot : Slot κ) (key : κ) : Bool := slot.state == .occupied && slot.key == some key

end Slot

/-- `Shard`: `keys.size()` is `cap`. -/
structure Shard (κ : Type*) where
  keys : Nat → Slot κ
  cap : Nat
  used : Nat
  tombstones : Nat

/-- The members of the set. -/
structure HashSet (κ : Type*) where
  shards : Nat → Shard κ
  size : Nat

/-- The template parameters. -/
structure HashParams (κ : Type*) where
  hash : κ → UInt64
  shardBits : Nat

namespace HashParams

variable {κ : Type*} (h : HashParams κ)

/-- `ShardIndex(hash_(key))`. -/
def shardIndex (key : κ) : Nat := (h.hash key).toNat &&& (2 ^ h.shardBits - 1)

/-- `h >> ShardBits`. -/
def home (key : κ) : Nat := (h.hash key).toNat >>> h.shardBits

end HashParams

/-- `Probe`. -/
def probe (idx cap : Nat) : Nat := (idx + 1) &&& (cap - 1)

/-- How the loop of `Insert` ends. -/
inductive ScanEnd where
  /-- The key is there. -/
  | present
  /-- At an empty slot. -/
  | empty (idx firstDeleted : Nat)
  /-- Back at the start. -/
  | around (firstDeleted : Nat)
deriving DecidableEq, Repr

namespace Shard

variable {κ : Type*}

/-- An empty shard. -/
def init : Shard κ := ⟨fun _ => .init, 0, 0, 0⟩

/-- `while (!IsEmpty(s.keys[idx])) { idx = Probe(idx, cap); }`. -/
def findEmpty (s : Shard κ) : Nat → Nat → Option Nat
  | 0, _ => none
  | fuel + 1, idx =>
    if (s.keys idx).state = .empty then some idx else s.findEmpty fuel (probe idx s.cap)

/-- `key.emplace(key)` on a slot that becomes occupied. -/
def emplace (s : Shard κ) (idx : Nat) (key : κ) : Shard κ :=
  { s with keys := Function.update s.keys idx ⟨some key, .occupied⟩, used := s.used + 1 }

variable (h : HashParams κ)

/-- The first slot that is probed for a key. -/
def start (s : Shard κ) (key : κ) : Nat := h.home key &&& (s.cap - 1)

/-- The probe for an empty slot, and the key put there. -/
def append (s : Shard κ) (key : κ) : Option (Shard κ) :=
  (s.findEmpty s.cap (s.start h key)).map fun idx => s.emplace idx key

/-- One turn of the loop of `RehashShard`; an occupied slot without a key would be read as one. -/
def rehashSlot (s : Shard κ) (slot : Slot κ) : Option (Shard κ) :=
  if slot.state ≠ .occupied then some s else slot.key.bind fun key => s.append h key

/-- `RehashShard`. -/
def rehashShard (s : Shard κ) : Option (Shard κ) :=
  (List.range s.cap).foldlM (fun t idx => t.rehashSlot h (s.keys idx))
    ⟨fun _ => .init, if s.cap = 0 then 8 else s.cap * 2, 0, 0⟩

variable [DecidableEq κ]

/-- The loop of `Insert`. -/
def scan (s : Shard κ) (key : κ) (start : Nat) : Nat → Nat → Nat → Option ScanEnd
  | 0, _, _ => none
  | fuel + 1, idx, firstDeleted =>
    if (s.keys idx).holds key then some .present
    else
      let firstDeleted := if (s.keys idx).state = .deleted ∧ firstDeleted = s.cap then idx
        else firstDeleted
      if (s.keys idx).state = .empty then some (.empty idx firstDeleted)
      else if probe idx s.cap = start then some (.around firstDeleted)
      else s.scan key start fuel (probe idx s.cap) firstDeleted

/-- The loop of `Contains` and `Remove`: the slot of the key. -/
def search (s : Shard κ) (key : κ) (start : Nat) : Nat → Nat → Option (Option Nat)
  | 0, _ => none
  | fuel + 1, idx =>
    if (s.keys idx).state = .empty then some none
    else if (s.keys idx).holds key then some (some idx)
    else if probe idx s.cap = start then some none
    else s.search key start fuel (probe idx s.cap)

/-- `RehashShard` where the load asks for it. -/
def grow (s : Shard κ) : Option (Shard κ) :=
  if (s.used + s.tombstones) * 4 ≥ s.cap * 3 then s.rehashShard h else some s

/-- What the loop of `Insert` has found is acted on. The number is what is added to `size_`. -/
def finish (s : Shard κ) (key : κ) : ScanEnd → Option (Shard κ × Nat)
  | .present => some (s, 0)
  | .empty idx firstDeleted =>
    let target := if firstDeleted ≠ s.cap then firstDeleted else idx
    let tombstones := if (s.keys target).state = .deleted then s.tombstones - 1 else s.tombstones
    some ({ s with tombstones := tombstones }.emplace target key, 1)
  | .around firstDeleted =>
    if firstDeleted ≠ s.cap then
      some ({ s with tombstones := s.tombstones - 1 }.emplace firstDeleted key, 1)
    else
      (s.rehashShard h).bind fun s => (s.append h key).map fun s => (s, 1)

/-- The part of `Insert` under the lock. -/
def insert (s : Shard κ) (key : κ) : Option (Shard κ × Nat) :=
  (s.grow h).bind fun s =>
    (if s.cap = 0 then s.rehashShard h else some s).bind fun s =>
      (s.scan key (s.start h key) s.cap (s.start h key) s.cap).bind fun found =>
        s.finish h key found

/-- The part of `Contains` under the lock. -/
def contains (s : Shard κ) (key : κ) : Option Bool :=
  if s.cap = 0 then some false
  else (s.search key (s.start h key) s.cap (s.start h key)).map Option.isSome

/-- A key becomes a tombstone. -/
def bury (s : Shard κ) (idx : Nat) : Shard κ :=
  { s with
    keys := Function.update s.keys idx ⟨none, .deleted⟩
    used := s.used - 1
    tombstones := s.tombstones + 1 }

/-- The part of `Remove` under the lock, and what it takes from `size_`. -/
def remove (s : Shard κ) (key : κ) : Option (Shard κ × Nat) :=
  if s.cap = 0 then some (s, 0)
  else
    (s.search key (s.start h key) s.cap (s.start h key)).map fun found =>
      match found with
      | none => (s, 0)
      | some idx => (s.bury idx, 1)

end Shard

namespace HashSet

variable {κ : Type*}

/-- The empty set. -/
def init : HashSet κ := ⟨fun _ => .init, 0⟩

variable (h : HashParams κ) [DecidableEq κ]

/-- `Insert`. -/
def insert (s : HashSet κ) (key : κ) : Option (HashSet κ) :=
  ((s.shards (h.shardIndex key)).insert h key).map fun (shard, n) =>
    { shards := Function.update s.shards (h.shardIndex key) shard, size := s.size + n }

/-- `Contains`. -/
def contains (s : HashSet κ) (key : κ) : Option Bool :=
  (s.shards (h.shardIndex key)).contains h key

/-- `Remove`. -/
def remove (s : HashSet κ) (key : κ) : Option (HashSet κ) :=
  ((s.shards (h.shardIndex key)).remove h key).map fun (shard, n) =>
    { shards := Function.update s.shards (h.shardIndex key) shard, size := s.size - n }

end HashSet

/-! ## A set in use -/

/-- The operations. -/
inductive SetOp (κ : Type*) where
  | insert (key : κ)
  | remove (key : κ)
  | contains (key : κ)

variable {κ : Type*} [DecidableEq κ]

/-- One operation. -/
def HashSet.step (h : HashParams κ) (s : HashSet κ) : SetOp κ → Option (HashSet κ)
  | .insert key => s.insert h key
  | .remove key => s.remove h key
  | .contains key => (s.contains h key).map fun _ => s

/-- The operations one after the other. -/
def HashSet.run (h : HashParams κ) (ops : List (SetOp κ)) : Option (HashSet κ) :=
  ops.foldlM (fun s op => s.step h op) .init

/-- What an operation does to a set of keys. -/
def SetOp.apply (keys : Finset κ) : SetOp κ → Finset κ
  | .insert key => Insert.insert key keys
  | .remove key => keys.erase key
  | .contains _ => keys

/-- The keys that were inserted and not removed since. -/
def members (ops : List (SetOp κ)) : Finset κ := ops.foldl SetOp.apply ∅

/-! ## What holds of a set -/

/-- The key of an occupied slot. -/
def Slot.value (slot : Slot κ) : Option κ := if slot.state = .occupied then slot.key else none

/-- The number of slots in a state. -/
def Shard.count (s : Shard κ) (state : SlotState) : Nat :=
  (List.range s.cap).countP fun p => (s.keys p).state = state

/-- The slots of a shard are in order: their number is 0 or a power of two from 8 on, the occupied
ones have keys, no key is in two slots, every key is reached from its home slot without crossing an
empty slot, and the counters count. -/
structure Shard.WellFormed (h : HashParams κ) (s : Shard κ) : Prop where
  cap : s.cap = 0 ∨ ∃ m, 3 ≤ m ∧ s.cap = 2 ^ m
  key : ∀ p < s.cap, (s.keys p).state = .occupied → (s.keys p).key.isSome = true
  kept : Lib.Probing.Kept s.cap h.home (fun p => (s.keys p).value)
    fun p => (s.keys p).state ≠ .empty
  used : s.used = s.count .occupied
  tombstones : s.tombstones = s.count .deleted

/-- Every shard is in order and has no keys but its own. -/
structure HashSet.WellFormed (h : HashParams κ) (s : HashSet κ) : Prop where
  shard : ∀ i, (s.shards i).WellFormed h
  own : ∀ i, ∀ p < (s.shards i).cap, ∀ k, ((s.shards i).keys p).value = some k →
    h.shardIndex k = i

end UnifiedCache.Infra
