import UnifiedCache.Lib.Machine
import Mathlib.Data.Fintype.Defs
import Mathlib.Logic.Function.Iterate
import Mathlib.Tactic.Common

/-!
# The ring queue

`SpscRingQueue<T>` of `shared/infra/template`: a ring with an index `head_` for the producer and an
index `tail_` for the consumer, one slot of which stays empty. `TryPush` and `TryPop` are cut into
their single accesses to `head_`, `tail_` and `buffer_`, in the order the source makes them.

Nothing in the queue keeps two producers apart, so any number of threads may be in `TryPush`
(`RingUse`); with one producer, which may also call `Push`, the queue is used as its name says (`Spsc`).
A slot is `none` before it is written and after its value has been moved out.
-/

namespace UnifiedCache.Infra

/-- The members of the queue. -/
structure SpscRingQueue (α : Type*) where
  head : Nat
  tail : Nat
  pow2 : Bool
  mask : Nat
  capacity : Nat
  buffer : Nat → Option α

/-- Where a producer stands in `TryPush`. -/
inductive PushPc where
  /-- Before `head_.load`. -/
  | head
  /-- Before `tail_.load`. -/
  | tail (currentHead : Nat)
  /-- Before the write of the slot. -/
  | write (currentHead nextHead : Nat)
  /-- Before `head_.store`. -/
  | store (currentHead nextHead : Nat)
deriving DecidableEq, Repr

/-- Where the consumer stands in `TryPop`. -/
inductive PopPc (α : Type*) where
  /-- Before `head_.load`. -/
  | head
  /-- Before `tail_.load`. -/
  | tail (currentHead : Nat)
  /-- Before the value is moved out of the slot. -/
  | read (currentTail : Nat)
  /-- Before `tail_.store`. -/
  | store (currentTail : Nat) (value : Option α)
deriving DecidableEq, Repr

namespace SpscRingQueue

variable {α : Type*}

/-- `Setup`. -/
def setup (capacity : Nat) : SpscRingQueue α where
  head := 0
  tail := 0
  pow2 := capacity &&& (capacity - 1) == 0
  mask := capacity - 1
  capacity := capacity
  buffer := fun _ => none

/-- `Mod`. -/
def mod (q : SpscRingQueue α) (n : Nat) : Nat := if q.pow2 then n &&& q.mask else n % q.capacity

/-- The next access of `TryPush(value)`. An answer ends the call. -/
def tryPush (q : SpscRingQueue α) (value : α) : PushPc → SpscRingQueue α × (PushPc ⊕ Bool)
  | .head => (q, .inl (.tail q.head))
  | .tail currentHead =>
    if q.mod (currentHead + 1) = q.tail then (q, .inr false)
    else (q, .inl (.write currentHead (q.mod (currentHead + 1))))
  | .write currentHead nextHead =>
    ({ q with buffer := Function.update q.buffer currentHead (some value) },
      .inl (.store currentHead nextHead))
  | .store _ nextHead => ({ q with head := nextHead }, .inr true)

/-- The next access of `TryPop`. An answer ends the call: the value that was moved out, if the queue
was not empty. -/
def tryPop (q : SpscRingQueue α) : PopPc α → SpscRingQueue α × (PopPc α ⊕ Option (Option α))
  | .head => (q, .inl (.tail q.head))
  | .tail currentHead =>
    if q.tail = currentHead then (q, .inr none) else (q, .inl (.read q.tail))
  | .read currentTail =>
    ({ q with buffer := Function.update q.buffer currentTail none },
      .inl (.store currentTail (q.buffer currentTail)))
  | .store currentTail value => ({ q with tail := q.mod (currentTail + 1) }, .inr (some value))

end SpscRingQueue

/-! ## A queue in use -/

/-- A queue with the threads that are in `TryPush`, the consumer, and what happened so far: the values
whose push reported success, and what `TryPop` handed to the consumer, both in order. -/
structure RingUse (τ α : Type*) where
  ring : SpscRingQueue α
  pushing : τ → Option (α × PushPc)
  pop : PopPc α
  pushed : List α
  popped : List (Option α)

namespace RingUse

variable {τ α : Type*} [DecidableEq τ]

/-- A queue after `Setup`. -/
def start (capacity : Nat) : RingUse τ α where
  ring := .setup capacity
  pushing := fun _ => none
  pop := .head
  pushed := []
  popped := []

/-- A thread calls `TryPush`. -/
def enter (u : RingUse τ α) (t : τ) (value : α) : RingUse τ α :=
  { u with pushing := Function.update u.pushing t (some (value, .head)) }

/-- The next access of a thread in `TryPush`, with the answer when it returns. -/
def pushStep (u : RingUse τ α) (t : τ) : Option (RingUse τ α × Option Bool) :=
  match u.pushing t with
  | none => none
  | some (value, pc) =>
    match u.ring.tryPush value pc with
    | (ring, .inl pc') =>
      some ({ u with ring := ring, pushing := Function.update u.pushing t (some (value, pc')) }, none)
    | (ring, .inr ok) =>
      some ({ u with
        ring := ring
        pushing := Function.update u.pushing t none
        pushed := if ok then u.pushed ++ [value] else u.pushed }, some ok)

/-- The next access of the consumer, which calls `TryPop` over and over. -/
def popStep (u : RingUse τ α) : RingUse τ α :=
  match u.ring.tryPop u.pop with
  | (ring, .inl pc) => { u with ring := ring, pop := pc }
  | (ring, .inr none) => { u with ring := ring, pop := .head }
  | (ring, .inr (some value)) =>
    { u with ring := ring, pop := .head, popped := u.popped ++ [value] }

/-- A thread is between its write of the slot and its `head_.store`. -/
def Storing (u : RingUse τ α) (t : τ) : Prop :=
  match u.pushing t with
  | some (_, .store _ _) => True
  | _ => False

instance (u : RingUse τ α) (t : τ) : Decidable (u.Storing t) := by
  unfold Storing
  split <;> infer_instance

/-- When the thread is about to write its slot, the `head_` it has read is still the head, the slot is
not the last free one, and no other thread has written and not yet stored `head_`. -/
def Unraced (u : RingUse τ α) (t : τ) : Prop :=
  match u.pushing t with
  | some (_, .write currentHead nextHead) =>
    u.ring.head = currentHead ∧ nextHead ≠ u.ring.tail ∧ ∀ t', ¬ u.Storing t'
  | _ => True

instance [Fintype τ] (u : RingUse τ α) (t : τ) : Decidable (u.Unraced t) := by
  unfold Unraced
  split <;> infer_instance

/-- Every value whose push reported success is handed to the consumer exactly once: what was handed
over so far are the first of them, in order, none twice, and if the consumer goes on it gets the next
one. -/
structure Delivers (u : RingUse τ α) : Prop where
  inOrder : ∃ rest, u.pushed.map some = u.popped ++ rest
  once : u.pushed.Nodup
  next : ∀ v, u.pushed[u.popped.length]? = some v →
    ∃ n, (popStep^[n] u).popped = u.popped ++ [some v]

/-- The number of values whose push has reported success and which are not handed over yet. -/
def inFlight (u : RingUse τ α) : Nat := u.pushed.length - u.popped.length

end RingUse

/-! ## One producer and one consumer -/

/-- A queue with its producer and its consumer, and how full it was when calls were refused. -/
structure Spsc (α : Type*) where
  use : RingUse Unit α
  /-- The producer's call is `Push`, which starts again when the queue is full. -/
  blocking : Bool
  /-- The values in flight when the consumer last read `head_`. -/
  atHead : Nat
  /-- The values in flight at the read of `tail_` of every `TryPush` that failed. -/
  refused : List Nat
  /-- The values in flight at the read of `head_` of every `TryPop` that failed. -/
  starved : List Nat

/-- The producer enters `Push` or `TryPush`, or makes its next access; the consumer, which calls
`TryPop` over and over, makes its next access. -/
inductive SpscEvent (α : Type*) where
  | push (value : α)
  | tryPush (value : α)
  | produce
  | consume

namespace Spsc

variable {α : Type*}

/-- A queue after `Setup`. -/
def start (capacity : Nat) : Spsc α where
  use := .start capacity
  blocking := false
  atHead := 0
  refused := []
  starved := []

/-- The producer calls `Push` or `TryPush` when it is in no call. -/
def call (s : Spsc α) (blocking : Bool) (value : α) : Option (Spsc α) :=
  match s.use.pushing () with
  | none => some { s with use := s.use.enter () value, blocking := blocking }
  | some _ => none

/-- The next access of the producer. -/
def produce (s : Spsc α) : Option (Spsc α) :=
  match s.use.pushing () with
  | none => none
  | some (value, _) =>
    match s.use.pushStep () with
    | none => none
    | some (use, some false) =>
      if s.blocking then some { s with use := use.enter () value }
      else some { s with use := use, refused := s.use.inFlight :: s.refused }
    | some (use, _) => some { s with use := use }

/-- The next access of the consumer. -/
def consume (s : Spsc α) : Spsc α :=
  match s.use.pop, s.use.ring.tryPop s.use.pop with
  | .head, _ => { s with use := s.use.popStep, atHead := s.use.inFlight }
  | _, (_, .inr none) => { s with use := s.use.popStep, starved := s.atHead :: s.starved }
  | _, _ => { s with use := s.use.popStep }

/-- One step of either side. -/
def step (s : Spsc α) : SpscEvent α → Option (Spsc α)
  | .push value => s.call true value
  | .tryPush value => s.call false value
  | .produce => s.produce
  | .consume => some s.consume

/-- The consumer has chosen the slot and has not moved `tail_` past it. -/
def Reading (s : Spsc α) (slot : Nat) : Prop :=
  s.use.pop = .read slot ∨ ∃ value, s.use.pop = .store slot value

end Spsc

/-- All runs of one producer and one consumer. -/
def spscMachine (α : Type*) (capacity : Nat) : Lib.Machine (Spsc α) (SpscEvent α) where
  init s := s = .start capacity
  step := Spsc.step

end UnifiedCache.Infra
