import UnifiedCache.Lib.Machine
import UnifiedCache.Lib.Chain
import Mathlib.Algebra.Group.Nat.Defs

/-!
# The index pool

`IndexPool` hands out the indices below its capacity. The free ones are a linked list in an array, whose
head is popped by `Acquire` and pushed by `Release` without a lock: a call reads the head, reads or writes
the link of a node, and compares and swaps the head, or starts again. A version in the head counts the
swaps. All numbers are 32 bits wide.
-/

open Lib

namespace UnifiedCache.Infra.IndexPool

/-- There are so many values of `Index`, and so many versions. -/
def width : Nat := 2 ^ 32

/-- The largest `Index`. -/
def npos : Nat := width - 1

/-- `Pointer`. -/
structure Pointer where
  slot : Nat
  ver : Nat
deriving DecidableEq

/-- Where a thread is. -/
inductive Pc where
  | idle
  /-- In `Acquire`, before it loads the head. -/
  | acquire
  /-- Before it reads the link of the head. -/
  | acquireNext (ptr : Pointer)
  /-- Before it swaps the head. -/
  | acquireSwap (ptr : Pointer) (next : Nat)
  /-- In `Release` of a slot, before it loads the head. -/
  | release (slot : Nat)
  /-- Before it writes the link of its slot. -/
  | releaseNext (slot : Nat) (ptr : Pointer)
  /-- Before it swaps the head. -/
  | releaseSwap (slot : Nat) (ptr : Pointer)
deriving DecidableEq

/-- The slot that is being released. -/
def Pc.releasing : Pc → Option Nat
  | .release slot | .releaseNext slot _ | .releaseSwap slot _ => some slot
  | _ => none

/-- The node whose link is accessed next. -/
def Pc.node : Pc → Option Nat
  | .acquireNext ptr => some ptr.slot
  | .releaseNext slot _ => some slot
  | _ => none

/-- The pool and its threads. -/
structure State where
  capacity : Nat
  /-- `nodes_[slot].next`. -/
  next : Nat → Nat
  pointer : Pointer
  pc : Nat → Pc
  /-- What the last `Acquire` of a thread has returned. -/
  returned : Nat → Option Nat
  /-- The indices that were acquired and that nobody has started to release. -/
  held : List Nat
  /-- How many swaps there were. -/
  swaps : Nat
  /-- How many swaps there were when a thread loaded the head. -/
  seen : Nat → Nat

/-- `Setup`; `none` when it writes past the end of `nodes_`. -/
def setup (capacity : Nat) : Option State :=
  let size := (capacity + 1) % width
  if size ≤ capacity then none
  else some {
    capacity := capacity
    next := fun slot => if 1 ≤ slot ∧ slot < capacity then slot + 1 else 0
    pointer := ⟨1, 0⟩
    pc := fun _ => .idle
    returned := fun _ => none
    held := []
    swaps := 0
    seen := fun _ => 0 }

/-- What a thread does next. -/
inductive Event where
  | callAcquire (t : Nat)
  | callRelease (t idx : Nat)
  | load (t : Nat)
  | node (t : Nat)
  | swap (t : Nat) (spurious : Bool)

namespace State

variable (s : State)

/-- A thread goes on. -/
def goto (t : Nat) (pc : Pc) : State := { s with pc := Function.update s.pc t pc }

/-- `Acquire` returns. -/
def ret (t idx : Nat) : State :=
  { s with pc := Function.update s.pc t .idle, returned := Function.update s.returned t (some idx) }

/-- `Acquire` is called. -/
def callAcquire (t : Nat) : Option State :=
  match s.pc t with
  | .idle =>
    some { s with
      pc := Function.update s.pc t .acquire, returned := Function.update s.returned t none }
  | _ => none

/-- `Release` is called, for an index that is held. -/
def callRelease (t idx : Nat) : Option State :=
  match s.pc t with
  | .idle =>
    if idx ∉ s.held then none
    else if s.capacity ≤ idx then some s
    else some { s with
      pc := Function.update s.pc t (.release (idx + 1)), held := s.held.erase idx }
  | _ => none

/-- The head is loaded. -/
def load (t : Nat) : Option State :=
  match s.pc t with
  | .acquire =>
    if s.pointer.slot = 0 then some (s.ret t npos)
    else some { s with
      pc := Function.update s.pc t (.acquireNext s.pointer)
      seen := Function.update s.seen t s.swaps }
  | .release slot =>
    some { s with
      pc := Function.update s.pc t (.releaseNext slot s.pointer)
      seen := Function.update s.seen t s.swaps }
  | _ => none

/-- The link of a node is read or written. -/
def node (t : Nat) : Option State :=
  match s.pc t with
  | .acquireNext ptr => some (s.goto t (.acquireSwap ptr (s.next ptr.slot)))
  | .releaseNext slot ptr =>
    some { s with
      pc := Function.update s.pc t (.releaseSwap slot ptr)
      next := Function.update s.next slot ptr.slot }
  | _ => none

/-- The head becomes `desired`. -/
def store (desired : Pointer) : State := { s with pointer := desired, swaps := s.swaps + 1 }

/-- `compare_exchange_weak`, which may fail spuriously. -/
def swap (t : Nat) (spurious : Bool) : Option State :=
  match s.pc t with
  | .acquireSwap ptr next =>
    if !spurious ∧ s.pointer = ptr then
      some (({ s with held := (ptr.slot - 1) :: s.held }.store ⟨next, (ptr.ver + 1) % width⟩).ret t
        (ptr.slot - 1))
    else some (s.goto t .acquire)
  | .releaseSwap slot ptr =>
    if !spurious ∧ s.pointer = ptr then
      some ((s.store ⟨slot, (ptr.ver + 1) % width⟩).goto t .idle)
    else some (s.goto t (.release slot))
  | _ => none

/-- One step. -/
def step : Event → Option State
  | .callAcquire t => s.callAcquire t
  | .callRelease t idx => s.callRelease t idx
  | .load t => s.load t
  | .node t => s.node t
  | .swap t spurious => s.swap t spurious

end State

/-- The pool of a capacity with any number of threads. -/
def machine (capacity : Nat) : Machine State Event where
  init s := setup capacity = some s
  step := State.step

/-- The version does not wrap around between the load of the head and the swap. -/
def NoWrap (s : State) : Event → Prop
  | .swap t _ => s.swaps - s.seen t < width
  | _ => True

/-- The books are exact: every index is free, held or being released, each in one place only, and the free
ones are the list at the head. No node past the end is accessed, and `Acquire` returns `npos` only when it
has loaded the head of an empty list. -/
def State.Exact (s : State) : Prop :=
  ∃ free : List Nat,
    Chain s.next 0 s.pointer.slot (free.map (· + 1)) ∧ free.Nodup ∧ s.held.Nodup ∧
    (∀ idx, idx < s.capacity ↔
      idx ∈ free ∨ idx ∈ s.held ∨ ∃ t, (s.pc t).releasing = some (idx + 1)) ∧
    (∀ idx ∈ free, idx ∉ s.held) ∧
    (∀ t idx, (s.pc t).releasing = some (idx + 1) → idx ∉ free ∧ idx ∉ s.held) ∧
    (∀ t t' slot, (s.pc t).releasing = some slot → (s.pc t').releasing = some slot → t = t') ∧
    (∀ t slot, (s.pc t).node = some slot → slot ≤ s.capacity) ∧
    ∀ e s' t, s.step e = some s' → s.returned t = none → s'.returned t = some npos →
      e = .load t ∧ free = []

end UnifiedCache.Infra.IndexPool
